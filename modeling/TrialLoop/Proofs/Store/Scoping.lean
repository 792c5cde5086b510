import TrialLoop.Proofs.Store.Chain

namespace TrialLoop

namespace Arena

variable {a b : Arena} {id store : Nat} {ids : List Nat} {name other : String}

/--
A store is asked for a variable. What it does not hold it asks the store that it falls back on, with
a handle on that one until the answer is there. The answer leads from an arena to another one.
-/
inductive Reads (name : String) : Arena → Nat → Option Value → Arena → Prop
  | own {a : Arena} {id : Nat} {v : Value} : (a.bindings id).get? name = some v →
      Reads name a id (some v) a
  | nowhere {a : Arena} {id : Nat} : (a.bindings id).get? name = none → a.up id = none →
      Reads name a id none a
  | inherited {a a' : Arena} {id p : Nat} {v : Option Value} :
      (a.bindings id).get? name = none → a.up id = some p → Reads name (a.retain p) p v a' →
      Reads name a id v (a'.release p)

namespace Reads

variable {v v' : Option Value} {a' b' : Arena}

theorem unique (r : Reads name a id v a') (r' : Reads name a id v' b') : v' = v ∧ b' = a' := by
  induction r generalizing v' b' with
  | own hv =>
    cases r' with
    | own hv' => exact ⟨hv'.symm.trans hv, rfl⟩
    | nowhere hn => cases hv.symm.trans hn
    | inherited hn => cases hv.symm.trans hn
  | nowhere hn hu =>
    cases r' with
    | own hv' => cases hn.symm.trans hv'
    | nowhere => exact ⟨rfl, rfl⟩
    | inherited _ hu' => cases hu.symm.trans hu'
  | inherited hn hu _ ih =>
    cases r' with
    | own hv' => cases hn.symm.trans hv'
    | nowhere _ hu' => cases hu.symm.trans hu'
    | inherited _ hu' r' =>
      cases hu.symm.trans hu'
      obtain ⟨rfl, rfl⟩ := ih r'
      exact ⟨rfl, rfl⟩

end Reads

/-- A store answers with what is nearest. The handles taken on the way up are dropped again. -/
theorem Chain.reads (c : a.Chain id ids) (h : b.Sound) (hlinks : SameLinks a b)
    (hsame : ∀ i, b.bindings i = a.bindings i) (name : String) :
    Reads name b id (a.nearest ids name) b := by
  -- Each store is asked in an arena with one more handle, so the arena varies along the chain.
  induction c generalizing b with
  | @last id _ hu =>
    rw [nearest_cons]
    rcases hv : (a.bindings id).get? name with _ | v
    · exact .nowhere (by rw [hsame, hv]) ((hlinks.up_eq id).trans hu)
    · exact .own (by rw [hsame, hv])
  | @next id p ids hu _ ih =>
    rw [nearest_cons]
    rcases hv : (a.bindings id).get? name with _ | v
    · have hlinks' : SameLinks a (b.retain p) := fun i => (b.sameLinks_retain p i).trans (hlinks i)
      have hup := ih (h.retain p) hlinks' fun i => (b.bindings_retain p i).trans (hsame i)
      have hread : Reads name b id (a.nearest ids name) ((b.retain p).release p) :=
        .inherited (by rw [hsame, hv]) ((hlinks.up_eq id).trans hu) hup
      rw [h.release_retain] at hread
      exact hread
    · exact .own (by rw [hsame, hv])

/-- A variable of a store is set or unset. -/
inductive Writes (a : Arena) (store : Nat) (name : String) : Arena → Prop
  | set (v : Value) : Writes a store name (a.set store name v)
  | unset : Writes a store name (a.unset store name)

/-- Of some stores one comes before all others that hold a variable. -/
def ReachedFirst (a : Arena) (ids : List Nat) (store : Nat) (name : String) : Prop :=
  ∃ before after, ids = before ++ store :: after ∧
    ∀ id ∈ before, (a.bindings id).has name = false

namespace Writes

variable {a' : Arena}

/-- A write changes the bindings of its store, and of these no other variable. -/
theorem eq_modify (w : Writes a store name a') : ∃ g : Bindings → Bindings,
    a' = a.modify store (fun s => some { s with bindings := g s.bindings }) ∧
      ∀ b other, other ≠ name → (g b).get? other = b.get? other := by
  cases w with
  | set v =>
    refine ⟨fun b => b.set name v, rfl, fun b other hne => ?_⟩
    rw [Bindings.get?_set, if_neg hne]
  | unset =>
    refine ⟨fun b => b.erase name, rfl, fun b other hne => ?_⟩
    rw [Bindings.get?_erase, if_neg hne]

theorem sameLinks (w : Writes a store name a') : SameLinks a a' := by
  obtain ⟨g, rfl, -⟩ := w.eq_modify
  exact sameLinks_modify fun _ => rfl

theorem sound (w : Writes a store name a') (h : a.Sound) : a'.Sound := by
  obtain ⟨g, rfl, -⟩ := w.eq_modify
  refine h.modify fun s s' hheld he => ?_
  cases he
  exact ⟨rfl, hheld⟩

theorem bindings_of_ne (w : Writes a store name a') {i : Nat} (h : i ≠ store) :
    a'.bindings i = a.bindings i := by
  obtain ⟨g, rfl, -⟩ := w.eq_modify
  exact bindings_modify_of_ne h

theorem get?_of_ne (w : Writes a store name a') (hlive : a.Live store) (i : Nat)
    (h : other ≠ name) : (a'.bindings i).get? other = (a.bindings i).get? other := by
  by_cases hi : i = store
  · obtain ⟨g, rfl, hg⟩ := w.eq_modify
    rw [hi, bindings_modify_self hlive, hg _ _ h]
  · rw [w.bindings_of_ne hi]

end Writes

/-- Two ways to answer that agree but for one store agree, unless this store is asked first. -/
theorem findSome?_eq_or_first (store : Nat) {f g : Nat → Option Value}
    (h : ∀ i, i ≠ store → g i = f i) (ids : List Nat) :
    ids.findSome? g = ids.findSome? f ∨
      ∃ before after, ids = before ++ store :: after ∧ ∀ i ∈ before, f i = none := by
  induction ids with
  | nil => exact .inl rfl
  | cons i ids ih =>
    by_cases hi : i = store
    · exact .inr ⟨[], ids, by rw [hi]; rfl, by simp⟩
    · rw [List.findSome?_cons, List.findSome?_cons, h i hi]
      rcases hv : f i with _ | v
      · rcases ih with heq | ⟨before, after, rfl, hnone⟩
        · exact .inl heq
        · exact .inr ⟨i :: before, after, rfl, List.forall_mem_cons.mpr ⟨hv, hnone⟩⟩
      · exact .inl rfl

theorem Writes.nearest_eq_or {a' : Arena} (w : Writes a store other a') (hlive : a.Live store)
    (ids : List Nat) (name : String) :
    a'.nearest ids name = a.nearest ids name ∨ (name = other ∧ a.ReachedFirst ids store name) := by
  rw [nearest_eq_findSome?, nearest_eq_findSome?]
  by_cases hname : name = other
  · have hsame : ∀ i, i ≠ store → (a'.bindings i).get? name = (a.bindings i).get? name :=
      fun i hi => by rw [w.bindings_of_ne hi]
    rcases findSome?_eq_or_first store hsame ids with heq | ⟨before, after, hids, hnone⟩
    · exact .inl heq
    · refine .inr ⟨hname, before, after, hids, fun i hi => ?_⟩
      rw [Bindings.has_eq_isSome, hnone i hi]
      rfl
  · have hall : (fun i => (a'.bindings i).get? name) = fun i => (a.bindings i).get? name :=
      funext fun i => w.get?_of_ne hlive i hname
    rw [hall]
    exact .inl rfl

/-- What is read after a write to the store that is reached first: its value there, or a further one. -/
theorem Writes.nearest_eq {a' : Arena} (w : Writes a store name a') {before after : List Nat}
    (hn : (before ++ store :: after).Nodup)
    (hbefore : ∀ i ∈ before, (a.bindings i).has name = false) :
    a'.nearest (before ++ store :: after) name =
      ((a'.bindings store).get? name).or (a.nearest after name) := by
  have hne : ∀ i ∈ before, i ≠ store := by
    rintro i hi rfl
    exact (List.disjoint_of_nodup_append hn) hi List.mem_cons_self
  have hnone : ∀ i ∈ before, (a'.bindings i).get? name = none := by
    intro i hi
    have hheld := hbefore i hi
    rw [Bindings.has_eq_isSome, Option.isSome_eq_false_iff, Option.isNone_iff_eq_none] at hheld
    rw [w.bindings_of_ne (hne i hi), hheld]
  have hafter : a'.nearest after name = a.nearest after name := by
    refine nearest_congr fun i hi => ?_
    have hstore := (List.nodup_cons.mp (List.Nodup.of_append_right hn)).1
    rw [w.bindings_of_ne (fun he => hstore (he ▸ hi))]
  rw [nearest_append_of_none hnone, nearest_cons, hafter]

/--
Asking a store for a variable comes to an end and leaves everything as it was. The answer is the
value in the nearest store that holds the variable, of those that are reached before one is gone. A
write changes what its own store holds, and what is read by stores that reach it first. The last
handle that is dropped takes a store out of every chain.
-/
theorem store_reads_nearest (h : a.Made) (hlive : a.Live id) (name : String) :
    ∃ ids, (∀ ids', a.Chain id ids' ↔ ids' = ids) ∧
      (∀ v a', Reads name a id v a' ↔ v = a.nearest ids name ∧ a' = a) ∧
      (a.scope id).raw? name = a.nearest ids name ∧
      (∀ store other a', a.Live store → Writes a store other a' →
        (∀ i, i ≠ store → a'.bindings i = a.bindings i) ∧
        (∀ ids', a'.Chain id ids' ↔ ids' = ids) ∧
        ((a'.scope id).raw? name ≠ (a.scope id).raw? name →
          name = other ∧ a.ReachedFirst ids store name)) ∧
      (∀ before store after, ids = before ++ store :: after →
        (∀ i ∈ before, (a.bindings i).has name = false) →
        (∀ v, ((a.set store name v).scope id).raw? name = some v) ∧
        ((a.unset store name).scope id).raw? name = a.nearest after name) ∧
      ∀ p s, a.get? p = some s → s.handles ≤ 1 →
        ∀ i ids', (a.release p).Chain i ids' → p ∉ ids' := by
  have hs := h.sound
  obtain ⟨ids, hc⟩ := hs.exists_chain hlive
  have hreads := hc.reads hs (fun _ => rfl) (fun _ => rfl) name
  refine ⟨ids, hc.iff_eq, fun v a' => ⟨?_, ?_⟩, hc.raw?_scope hs name, ?_, ?_, ?_⟩
  · exact fun r => hreads.unique r
  · rintro ⟨rfl, rfl⟩
    exact hreads
  · intro store other a' hstore w
    have hc' := w.sameLinks.chain hc
    refine ⟨fun i hi => w.bindings_of_ne hi, hc'.iff_eq, fun hchanged => ?_⟩
    rw [hc'.raw?_scope (w.sound hs), hc.raw?_scope hs] at hchanged
    exact (w.nearest_eq_or hstore ids name).resolve_left hchanged
  · rintro before store after rfl hbefore
    have hstore : a.Live store := hc.live (by simp)
    have hread : ∀ {a'}, Writes a store name a' → (a'.scope id).raw? name =
        ((a'.bindings store).get? name).or (a.nearest after name) := by
      intro a' w
      rw [(w.sameLinks.chain hc).raw?_scope (w.sound hs), w.nearest_eq (hc.nodup hs) hbefore]
    constructor
    · intro v
      rw [hread (.set v), bindings_set_self hstore, Bindings.get?_set, if_pos rfl, Option.some_or]
    · rw [hread .unset, bindings_unset_self hstore, Bindings.get?_erase, if_pos rfl,
        Option.none_or]
  · intro p s hp hlast i ids' c hm
    exact not_live_release hp hlast (c.live hm)

/-- Three stores, each of which falls back on the one before it, with a variable in the first two. -/
def threeStores : Arena :=
  ((((({} : Arena).create none).1.create (some 0)).1.create (some 1)).1.set 0 "x" (.int 1)).set 1
    "x" (.int 2)

/-- The third store reads what the second holds. Without it the value of the first is found. -/
theorem store_reads_nearest_threeStores :
    threeStores.Made ∧ threeStores.Live 2 ∧ threeStores.Chain 2 [2, 1, 0] ∧
      Reads "x" threeStores 2 (some (.int 2)) threeStores ∧
      ((threeStores.unset 1 "x").scope 2).raw? "x" = some (.int 1) ∧
      ∀ ids, (threeStores.release 1).Chain 2 ids → 1 ∉ ids := by
  have hmade : threeStores.Made :=
    .set _ _ (.set _ _ (.create (.create (.create .start (by simp)) (fun _ hp => by cases hp; rfl))
      (fun _ hp => by cases hp; rfl)) rfl) rfl
  have hlive : threeStores.Live 2 := rfl
  have hc : threeStores.Chain 2 [2, 1, 0] := .next rfl (.next rfl (.last rfl rfl))
  obtain ⟨ids, hchain, hreads, -, -, hwritten, hdropped⟩ := store_reads_nearest hmade hlive "x"
  obtain rfl := (hchain _).mp hc
  refine ⟨hmade, hlive, hc, (hreads _ _).mpr ⟨rfl, rfl⟩, ?_, hdropped 1 _ rfl (Nat.le_refl 1) 2⟩
  exact (hwritten [2] 1 [0] rfl (by simp; rfl)).2

end Arena

end TrialLoop