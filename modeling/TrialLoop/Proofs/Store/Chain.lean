import TrialLoop.Proofs.Store.Arena
import Mathlib.Data.List.Nodup

namespace TrialLoop

namespace Arena

variable {a b : Arena} {id p : Nat} {ids : List Nat} {name : String}

/-- The store that a store falls back on, unless it is gone. -/
def up (a : Arena) (id : Nat) : Option Nat :=
  ((a.get? id).bind (·.parent)).filter fun p => (a.get? p).isSome

/-- A store, the one that it falls back on, and so on as long as they are alive. -/
inductive Chain (a : Arena) : Nat → List Nat → Prop
  | last {id : Nat} : a.Live id → a.up id = none → Chain a id [id]
  | next {id p : Nat} {ids : List Nat} : a.up id = some p → Chain a p ids → Chain a id (id :: ids)

/-- The value that a variable has in the first of some stores that hold it. -/
def nearest (a : Arena) (ids : List Nat) (name : String) : Option Value :=
  (ids.find? fun id => (a.bindings id).has name).bind fun id => (a.bindings id).get? name

theorem up_eq_some_iff :
    a.up id = some p ↔ (∃ s, a.get? id = some s ∧ s.parent = some p) ∧ a.Live p := by
  rw [up, Option.filter_eq_some_iff, Option.bind_eq_some_iff, Live]

theorem live_of_up (h : a.up id = some p) : a.Live id := by
  obtain ⟨⟨s, hs, -⟩, -⟩ := up_eq_some_iff.mp h
  rw [Live, hs]
  rfl

theorem Sound.up_lt (h : a.Sound) (hu : a.up id = some p) : p < id := by
  obtain ⟨⟨s, hs, hp⟩, -⟩ := up_eq_some_iff.mp hu
  exact h.older hs hp

/-- The way up comes to an end, since it leads to older stores. -/
theorem Sound.exists_chain (h : a.Sound) (hlive : a.Live id) : ∃ ids, a.Chain id ids := by
  induction id using Nat.strongRecOn with
  | ind id ih =>
    rcases hu : a.up id with _ | p
    · exact ⟨[id], .last hlive hu⟩
    · obtain ⟨ids, hc⟩ := ih p (h.up_lt hu) (up_eq_some_iff.mp hu).2
      exact ⟨id :: ids, .next hu hc⟩

namespace Chain

theorem unique (c : a.Chain id ids) {ids' : List Nat} (c' : a.Chain id ids') : ids' = ids := by
  induction c generalizing ids' with
  | last _ hu =>
    cases c' with
    | last => rfl
    | next hu' => cases hu.symm.trans hu'
  | next hu _ ih =>
    cases c' with
    | last _ hu' => cases hu.symm.trans hu'
    | next hu' c' =>
      cases hu.symm.trans hu'
      rw [ih c']

theorem iff_eq (c : a.Chain id ids) (ids' : List Nat) : a.Chain id ids' ↔ ids' = ids :=
  ⟨fun c' => c.unique c', fun he => he ▸ c⟩

theorem live (c : a.Chain id ids) {i : Nat} (hi : i ∈ ids) : a.Live i := by
  induction c with
  | last hlive _ => exact List.mem_singleton.mp hi ▸ hlive
  | next hu _ ih =>
    rcases List.mem_cons.mp hi with rfl | hi
    · exact live_of_up hu
    · exact ih hi

theorem le (c : a.Chain id ids) (h : a.Sound) {i : Nat} (hi : i ∈ ids) : i ≤ id := by
  induction c with
  | last => exact Nat.le_of_eq (List.mem_singleton.mp hi)
  | next hu _ ih =>
    rcases List.mem_cons.mp hi with rfl | hi
    · exact Nat.le_refl _
    · exact Nat.le_trans (ih hi) (Nat.le_of_lt (h.up_lt hu))

theorem nodup (c : a.Chain id ids) (h : a.Sound) : ids.Nodup := by
  induction c with
  | last => exact List.nodup_singleton _
  | next hu c ih =>
    refine List.nodup_cons.mpr ⟨fun hm => ?_, ih⟩
    have := h.up_lt hu
    have := c.le h hm
    omega

theorem scope_eq (c : a.Chain id ids) (h : a.Sound) : a.scope id = ids.map a.bindings := by
  induction c with
  | @last id hlive hu =>
    obtain ⟨s, hs⟩ := Option.isSome_iff_exists.mp hlive
    rw [scope, hs]
    dsimp only
    rcases hp : s.parent with _ | p
    · simp only [List.map_cons, List.map_nil, bindings, hs, Option.map_some, Option.getD_some]
    · have hgone : a.get? p = none := by
        by_contra hn
        have hup : a.up id = some p :=
          up_eq_some_iff.mpr ⟨⟨s, hs, hp⟩, Option.isSome_iff_ne_none.mpr hn⟩
        cases hu.symm.trans hup
      have hnone : a.scope p = [] := by rw [scope, hgone]
      simp [bindings, hs, hnone]
  | next hu _ ih =>
    obtain ⟨⟨s, hs, hp⟩, -⟩ := up_eq_some_iff.mp hu
    rw [scope, hs]
    simp only [hp, if_pos (h.up_lt hu), ih]
    simp [bindings, hs]

end Chain

theorem nearest_eq_findSome? (a : Arena) (ids : List Nat) (name : String) :
    a.nearest ids name = ids.findSome? fun id => (a.bindings id).get? name := by
  induction ids with
  | nil => rfl
  | cons id ids ih =>
    rw [nearest, List.find?_cons, List.findSome?_cons, Bindings.has_eq_isSome]
    rcases hv : (a.bindings id).get? name with _ | v
    · exact ih
    · exact hv

theorem Chain.raw?_scope (c : a.Chain id ids) (h : a.Sound) (name : String) :
    (a.scope id).raw? name = a.nearest ids name := by
  rw [c.scope_eq h, Scope.raw?, List.findSome?_map, nearest_eq_findSome?]
  rfl

theorem nearest_cons (a : Arena) (id : Nat) (ids : List Nat) (name : String) :
    a.nearest (id :: ids) name = ((a.bindings id).get? name).or (a.nearest ids name) := by
  rw [nearest_eq_findSome?, List.findSome?_cons, nearest_eq_findSome?]
  cases (a.bindings id).get? name <;> rfl

theorem nearest_append_of_none {before : List Nat}
    (h : ∀ i ∈ before, (a.bindings i).get? name = none) (after : List Nat) :
    a.nearest (before ++ after) name = a.nearest after name := by
  rw [nearest_eq_findSome?, List.findSome?_append, List.findSome?_eq_none_iff.mpr h,
    nearest_eq_findSome?]
  rfl

theorem nearest_congr (h : ∀ i ∈ ids, (b.bindings i).get? name = (a.bindings i).get? name) :
    b.nearest ids name = a.nearest ids name := by
  induction ids with
  | nil => rfl
  | cons i ids ih =>
    obtain ⟨hi, hids⟩ := List.forall_mem_cons.mp h
    rw [nearest_cons, nearest_cons, hi, ih hids]

/-- Stores live and fall back on others just as in another arena. -/
def SameLinks (a b : Arena) : Prop :=
  ∀ id, (b.get? id).map (·.parent) = (a.get? id).map (·.parent)

namespace SameLinks

theorem live_iff (h : SameLinks a b) : b.Live id ↔ a.Live id := by
  have hid := congrArg Option.isSome (h id)
  rw [Option.isSome_map, Option.isSome_map] at hid
  rw [Live, Live, hid]

theorem up_eq (h : SameLinks a b) (id : Nat) : b.up id = a.up id := by
  have hlink : ∀ a : Arena, a.up id =
      (((a.get? id).map (·.parent)).join).filter fun p => ((a.get? p).map (·.parent)).isSome := by
    intro a
    rw [up]
    cases a.get? id <;> simp
  rw [hlink, hlink, h id]
  congr 1
  funext p
  rw [h p]

theorem chain (h : SameLinks a b) (c : a.Chain id ids) : b.Chain id ids := by
  induction c with
  | last hlive hu => exact .last (h.live_iff.mpr hlive) ((h.up_eq _).trans hu)
  | next hu _ ih => exact .next ((h.up_eq _).trans hu) ih

end SameLinks

theorem sameLinks_modify {f : Store → Store} (hf : ∀ s, (f s).parent = s.parent) :
    SameLinks a (a.modify id fun s => some (f s)) := by
  intro i
  rw [get?_modify]
  split
  next he =>
    subst he
    cases a.get? i with
    | none => rfl
    | some s => exact congrArg some (hf s)
  next => rfl

theorem sameLinks_retain (a : Arena) (id : Nat) : SameLinks a (a.retain id) :=
  sameLinks_modify fun _ => rfl

end Arena

end TrialLoop
