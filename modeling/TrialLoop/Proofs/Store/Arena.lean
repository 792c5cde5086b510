import TrialLoop.Store.Arena

namespace TrialLoop

theorem Bindings.has_eq_isSome (b : Bindings) (name : String) :
    b.has name = (b.get? name).isSome := by
  rw [has, get?, Option.isSome_map, Bool.eq_iff_iff, List.find?_isSome, List.any_eq_true]

namespace Arena

/-- Something has a handle on the store. -/
def Live (a : Arena) (id : Nat) : Prop :=
  (a.get? id).isSome

theorem get?_create (a : Arena) (parent : Option Nat) (id : Nat) :
    (a.create parent).1.get? id =
      if id = a.stores.size then some { parent := parent } else a.get? id := by
  rw [create, get?, Array.getElem?_push]
  split
  next => rfl
  next => rfl

theorem get?_modify (a : Arena) (id : Nat) (f : Store → Option Store) (other : Nat) :
    (a.modify id f).get? other = if other = id then a.get? id >>= f else a.get? other := by
  rw [modify, get?, Array.getElem?_modify]
  by_cases h : id = other
  · subst h
    rw [if_pos rfl, if_pos rfl, get?]
    cases a.stores[id]? <;> rfl
  · rw [if_neg h, if_neg (Ne.symm h), get?]

theorem modify_modify (a : Arena) (id : Nat) (f g : Store → Option Store) :
    (a.modify id f).modify id g = a.modify id fun s => f s >>= g := by
  refine congrArg Arena.mk (Array.ext_getElem? fun i => ?_)
  simp only [modify, Array.getElem?_modify]
  split
  next => cases a.stores[i]? <;> simp [Option.bind_assoc]
  next => rfl

theorem modify_eq_self {a : Arena} {id : Nat} {f : Store → Option Store}
    (h : ∀ s, a.get? id = some s → f s = some s) : a.modify id f = a := by
  refine congrArg Arena.mk (Array.ext_getElem? fun i => ?_)
  rw [Array.getElem?_modify]
  split
  next he =>
    subst he
    rcases hs : a.stores[id]? with _ | _ | s
    · rfl
    · rfl
    · have hsame := h s (by rw [get?, hs]; rfl)
      simp [hsame]
  next => rfl

theorem bindings_modify_of_ne {a : Arena} {id : Nat} {f : Store → Option Store} {i : Nat}
    (h : i ≠ id) : (a.modify id f).bindings i = a.bindings i := by
  rw [bindings, get?_modify, if_neg h, bindings]

theorem bindings_modify_self {a : Arena} {id : Nat} {g : Bindings → Bindings} (hlive : a.Live id) :
    (a.modify id fun s => some { s with bindings := g s.bindings }).bindings id =
      g (a.bindings id) := by
  obtain ⟨s, hs⟩ := Option.isSome_iff_exists.mp hlive
  rw [bindings, get?_modify, if_pos rfl, bindings, hs]
  rfl

theorem bindings_set_self {a : Arena} {id : Nat} (hlive : a.Live id) (name : String) (v : Value) :
    (a.set id name v).bindings id = (a.bindings id).set name v :=
  bindings_modify_self (g := fun b => b.set name v) hlive

theorem bindings_unset_self {a : Arena} {id : Nat} (hlive : a.Live id) (name : String) :
    (a.unset id name).bindings id = (a.bindings id).erase name :=
  bindings_modify_self (g := fun b => b.erase name) hlive

theorem bindings_retain (a : Arena) (id i : Nat) : (a.retain id).bindings i = a.bindings i := by
  by_cases h : i = id
  · subst h
    rw [retain, bindings, get?_modify, if_pos rfl, bindings]
    cases a.get? i <;> rfl
  · exact bindings_modify_of_ne h

theorem lt_size_of_live {a : Arena} {id : Nat} (h : a.Live id) : id < a.stores.size := by
  rcases Nat.lt_or_ge id a.stores.size with hlt | hge
  · exact hlt
  · rw [Live, get?, Array.getElem?_eq_none hge] at h
    cases h

/--
The arenas that there are after some operations. A store that is gone has no handle left by which
it could be changed or become a parent.
-/
inductive Made : Arena → Prop
  | start : Made {}
  | create {a : Arena} {parent : Option Nat} : Made a → (∀ p ∈ parent, a.Live p) →
      Made (a.create parent).1
  | set {a : Arena} {id : Nat} (name : String) (v : Value) : Made a → a.Live id →
      Made (a.set id name v)
  | unset {a : Arena} {id : Nat} (name : String) : Made a → a.Live id → Made (a.unset id name)
  | retain {a : Arena} {id : Nat} : Made a → a.Live id → Made (a.retain id)
  | release {a : Arena} {id : Nat} : Made a → a.Live id → Made (a.release id)

/-- Stores fall back on older ones, and those that are alive have a handle. -/
structure Sound (a : Arena) : Prop where
  older : ∀ {id p : Nat} {s : Store}, a.get? id = some s → s.parent = some p → p < id
  held : ∀ {id : Nat} {s : Store}, a.get? id = some s → 0 < s.handles

namespace Sound

variable {a : Arena}

theorem create (h : a.Sound) {parent : Option Nat} (hp : ∀ p ∈ parent, a.Live p) :
    (a.create parent).1.Sound where
  older := by
    intro id p s hs hparent
    rw [get?_create] at hs
    split at hs
    next he =>
      cases hs
      rw [he]
      exact lt_size_of_live (hp p hparent)
    next => exact h.older hs hparent
  held := by
    intro id s hs
    rw [get?_create] at hs
    split at hs
    next =>
      cases hs
      exact Nat.one_pos
    next => exact h.held hs

theorem modify (h : a.Sound) {id : Nat} {f : Store → Option Store}
    (hf : ∀ s s', 0 < s.handles → f s = some s' → s'.parent = s.parent ∧ 0 < s'.handles) :
    (a.modify id f).Sound := by
  have hold : ∀ {other s'}, (a.modify id f).get? other = some s' →
      ∃ s, a.get? other = some s ∧ s'.parent = s.parent ∧ 0 < s'.handles := by
    intro other s' hs
    rw [get?_modify] at hs
    split at hs
    next he =>
      obtain ⟨s, hs, hs'⟩ := Option.bind_eq_some_iff.mp hs
      exact ⟨s, he ▸ hs, hf s s' (h.held hs) hs'⟩
    next => exact ⟨s', hs, rfl, h.held hs⟩
  constructor
  · intro other p s' hs hparent
    obtain ⟨s, hs, he, -⟩ := hold hs
    exact h.older hs (he ▸ hparent)
  · intro other s' hs
    obtain ⟨-, -, -, hheld⟩ := hold hs
    exact hheld

theorem retain (h : a.Sound) (id : Nat) : (a.retain id).Sound := by
  refine h.modify fun s s' _ he => ?_
  cases he
  exact ⟨rfl, Nat.succ_pos _⟩

end Sound

/-- What operations leave is sound. -/
theorem Made.sound {a : Arena} (h : a.Made) : a.Sound := by
  induction h with
  | start => exact ⟨fun hs => by simp [get?] at hs, fun hs => by simp [get?] at hs⟩
  | create _ hp ih => exact ih.create hp
  | set name v _ _ ih =>
    refine ih.modify fun s s' hheld he => ?_
    cases he
    exact ⟨rfl, hheld⟩
  | unset name _ _ ih =>
    refine ih.modify fun s s' hheld he => ?_
    cases he
    exact ⟨rfl, hheld⟩
  | retain _ _ ih => exact ih.retain _
  | release _ _ ih =>
    refine ih.modify fun s s' hheld he => ?_
    split at he
    next => cases he
    next hmany =>
      cases he
      exact ⟨rfl, by show 0 < s.handles - 1; omega⟩

/-- A handle that is taken and dropped again leaves everything as it was. -/
theorem Sound.release_retain {a : Arena} (h : a.Sound) (id : Nat) :
    (a.retain id).release id = a := by
  rw [Arena.retain, Arena.release, modify_modify]
  refine modify_eq_self fun s hs => ?_
  have hheld := h.held hs
  have hmany : ¬s.handles + 1 ≤ 1 := by omega
  simp [hmany]

/-- The last handle that is dropped ends the life of a store, whatever falls back on it. -/
theorem not_live_release {a : Arena} {id : Nat} {s : Store} (hs : a.get? id = some s)
    (hlast : s.handles ≤ 1) : ¬(a.release id).Live id := by
  have hnone : (a.release id).get? id = none := by
    rw [release, get?_modify, if_pos rfl, hs]
    exact if_pos hlast
  simp [Live, hnone]

end Arena

end TrialLoop
