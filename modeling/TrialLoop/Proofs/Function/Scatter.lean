import TrialLoop.Proofs.Function.PointCount
import Mathlib

namespace TrialLoop

/-- Points, the first one first, each of which is far enough from all that come before it. -/
def Spread (least : Float) (points : List (Float × Float)) : Prop :=
  points.Pairwise fun p q => distance q p ≥ least

/-- A candidate is kept if it is far enough from the points kept before, the newest first. -/
def keep (least : Float) (points : List (Float × Float)) (p : Float × Float) :
    List (Float × Float) :=
  if points.all fun q => distance p q ≥ least then p :: points else points

/-- Some candidates, drawn one after the other. -/
def drawn (draw : StateM RandomStream (Float × Float)) :
    Nat → StateM RandomStream (List (Float × Float))
  | 0 => return []
  | k + 1 => do
    let p ← draw
    return p :: (← drawn draw k)

/-- The points kept of the next candidates, after others, and the stream behind them. -/
def keepDrawn (draw : StateM RandomStream (Float × Float)) (least : Float)
    (points : List (Float × Float)) (k : Nat) (s : RandomStream) :
    List (Float × Float) × RandomStream :=
  ((drawn draw k s).1.foldl (keep least) points, (drawn draw k s).2)

section

variable {draw : StateM RandomStream (Float × Float)} {least : Float} {n : Nat}
  {points candidates : List (Float × Float)}

theorem keep_spread (p : Float × Float) (h : Spread least points.reverse) :
    Spread least (keep least points p).reverse := by
  unfold keep
  split
  next hp =>
    rw [Spread, List.pairwise_reverse] at h ⊢
    refine List.pairwise_cons.mpr ⟨fun q hq => ?_, h⟩
    simpa using List.all_eq_true.mp hp q hq
  next => exact h

theorem foldl_keep_spread (h : Spread least points.reverse) :
    Spread least (candidates.foldl (keep least) points).reverse := by
  induction candidates generalizing points with
  | nil => exact h
  | cons p candidates ih => exact ih (keep_spread p h)

theorem drawn_add (j k : Nat) (s : RandomStream) :
    drawn draw (j + k) s =
      ((drawn draw j s).1 ++ (drawn draw k (drawn draw j s).2).1,
        (drawn draw k (drawn draw j s).2).2) := by
  induction j generalizing s with
  | zero =>
    rw [Nat.zero_add]
    rfl
  | succ j ih =>
    have hstep (k : Nat) : drawn draw (k + 1) s =
        ((draw s).1 :: (drawn draw k (draw s).2).1, (drawn draw k (draw s).2).2) := rfl
    rw [Nat.add_right_comm, hstep, ih, hstep]
    rfl

theorem keepDrawn_succ (points : List (Float × Float)) (k : Nat) (s : RandomStream) :
    keepDrawn draw least points (k + 1) s =
      keepDrawn draw least (keep least points (draw s).1) k (draw s).2 := rfl

theorem keepDrawn_add (points : List (Float × Float)) (j k : Nat) (s : RandomStream) :
    keepDrawn draw least points (j + k) s =
      keepDrawn draw least (keepDrawn draw least points j s).1 k
        (keepDrawn draw least points j s).2 := by
  simp only [keepDrawn, drawn_add, List.foldl_append]

/-- A point is tried until one is kept, or until all tries are used up. -/
theorem placePoint_eq (tries : Nat) (points : List (Float × Float)) (s : RandomStream) :
    ∃ k ≤ tries, placePoint draw least tries points s = keepDrawn draw least points k s ∧
      ((∃ p, (keepDrawn draw least points k s).1 = p :: points) ∨
        k = tries ∧ (keepDrawn draw least points k s).1 = points) := by
  induction tries generalizing s with
  | zero => exact ⟨0, Nat.le_refl 0, rfl, .inr ⟨rfl, rfl⟩⟩
  | succ tries ih =>
    have hstep : placePoint draw least (tries + 1) points s =
        (if points.all fun q => distance (draw s).1 q ≥ least then pure ((draw s).1 :: points)
          else placePoint draw least tries points) (draw s).2 := rfl
    by_cases hp : (points.all fun q => distance (draw s).1 q ≥ least) = true
    · have hkeep : keep least points (draw s).1 = (draw s).1 :: points := if_pos hp
      refine ⟨1, Nat.succ_le_succ (Nat.zero_le _), ?_, .inl ⟨(draw s).1, ?_⟩⟩
      · rw [hstep, if_pos hp, keepDrawn_succ, hkeep]
        rfl
      · rw [keepDrawn_succ, hkeep]
        rfl
    · have hkeep : keep least points (draw s).1 = points := if_neg hp
      obtain ⟨k, hk, heq, hlast⟩ := ih (draw s).2
      refine ⟨k + 1, Nat.succ_le_succ hk, ?_, ?_⟩
      · rw [hstep, if_neg hp, keepDrawn_succ, hkeep, heq]
      · rw [keepDrawn_succ, hkeep]
        exact hlast.imp_right fun hall => ⟨congrArg Nat.succ hall.1, hall.2⟩

/-- What one attempt at some points draws, and when it falls short. -/
structure Attempt (draw : StateM RandomStream (Float × Float)) (least : Float) (n : Nat)
    (points : List (Float × Float)) (k : Nat) (s : RandomStream) : Prop where
  count_le : k ≤ n * maxTries
  length_le : (keepDrawn draw least points k s).1.length ≤ points.length + n
  short : (keepDrawn draw least points k s).1.length < points.length + n → maxTries ≤ k

theorem placePoints_eq (n : Nat) (points : List (Float × Float)) (s : RandomStream) :
    ∃ k, placePoints draw least n points s = keepDrawn draw least points k s ∧
      Attempt draw least n points k s := by
  induction n generalizing points s with
  | zero =>
    exact ⟨0, rfl, Nat.zero_le _, Nat.le_refl _, fun h => absurd h (Nat.lt_irrefl _)⟩
  | succ n ih =>
    obtain ⟨j, hj, hfirst, hlast⟩ := @placePoint_eq draw least maxTries points s
    obtain ⟨k, hrest, hk, hlength, hshort⟩ := ih (keepDrawn draw least points j s).1
      (keepDrawn draw least points j s).2
    have hstep : placePoints draw least (n + 1) points s =
        placePoints draw least n (placePoint draw least maxTries points s).1
          (placePoint draw least maxTries points s).2 := rfl
    have htotal : (n + 1) * maxTries = n * maxTries + maxTries := Nat.succ_mul n maxTries
    refine ⟨j + k, ?_, ?_⟩
    · rw [hstep, hfirst, hrest, keepDrawn_add]
    · rw [← keepDrawn_add] at hlength hshort
      rcases hlast with ⟨p, hkept⟩ | ⟨hj', hkept⟩
      · rw [hkept, List.length_cons] at hlength hshort
        exact ⟨by omega, by omega, fun h => by omega⟩
      · rw [hkept] at hlength hshort
        exact ⟨by omega, by omega, fun h => by omega⟩

/--
Attempts one after the other, with the number of candidates of each. They fall short until one
finds all points, if any does.
-/
inductive Attempts (draw : StateM RandomStream (Float × Float)) (least : Float) (n : Nat) :
    List Nat → RandomStream → Option (List (Float × Float)) → RandomStream → Prop
  | none (s : RandomStream) : Attempts draw least n [] s none s
  | found {k : Nat} {s : RandomStream} (h : Attempt draw least n [] k s)
      (hn : (keepDrawn draw least [] k s).1.length = n) :
      Attempts draw least n [k] s (some (keepDrawn draw least [] k s).1.reverse)
        (keepDrawn draw least [] k s).2
  | short {k : Nat} {ks : List Nat} {s s' : RandomStream} {r : Option (List (Float × Float))}
      (h : Attempt draw least n [] k s) (hn : (keepDrawn draw least [] k s).1.length < n)
      (rest : Attempts draw least n ks (keepDrawn draw least [] k s).2 r s') :
      Attempts draw least n (k :: ks) s r s'

theorem placeAll_attempts (tries : Nat) (s : RandomStream) :
    ∃ ks : List Nat, ks.length ≤ tries ∧
      Attempts draw least n ks s (placeAll draw least n tries s).1
        (placeAll draw least n tries s).2 ∧
      ((placeAll draw least n tries s).1 = none → ks.length = tries) := by
  induction tries generalizing s with
  | zero => exact ⟨[], Nat.le_refl 0, .none s, fun _ => rfl⟩
  | succ tries ih =>
    obtain ⟨k, hpoints, hattempt⟩ := @placePoints_eq draw least n [] s
    have hstep : placeAll draw least n (tries + 1) s =
        (if (placePoints draw least n [] s).1.length = n then
            pure (some (placePoints draw least n [] s).1.reverse)
          else placeAll draw least n tries) (placePoints draw least n [] s).2 := rfl
    rw [hstep, hpoints]
    by_cases hn : (keepDrawn draw least [] k s).1.length = n
    · rw [if_pos hn]
      exact ⟨[k], Nat.succ_le_succ (Nat.zero_le _), .found hattempt hn, fun h => by cases h⟩
    · rw [if_neg hn]
      obtain ⟨ks, hlength, hrest, hall⟩ := ih (keepDrawn draw least [] k s).2
      have hshort := hattempt.length_le
      rw [List.length_nil, Nat.zero_add] at hshort
      exact ⟨k :: ks, Nat.succ_le_succ hlength,
        .short hattempt (Nat.lt_of_le_of_ne hshort hn) hrest, fun h => congrArg Nat.succ (hall h)⟩

namespace Attempts

variable {ks : List Nat} {s s' : RandomStream} {r : Option (List (Float × Float))}

theorem count_le (h : Attempts draw least n ks s r s') : ∀ k ∈ ks, k ≤ n * maxTries := by
  induction h with
  | none => exact fun k hk => absurd hk List.not_mem_nil
  | found h _ => exact List.forall_mem_singleton.mpr h.count_le
  | short h _ _ ih => exact List.forall_mem_cons.mpr ⟨h.count_le, ih⟩

/-- The points that an attempt finds are all that were wanted, and far enough apart. -/
theorem spread (h : Attempts draw least n ks s (some points) s') :
    points.length = n ∧ Spread least points := by
  generalize hr : some points = r at h
  induction h with
  | none => cases hr
  | found _ hn =>
    rw [Option.some.inj hr, List.length_reverse]
    exact ⟨hn, foldl_keep_spread List.Pairwise.nil⟩
  | short _ _ _ ih => exact ih hr

/-- The attempts take no other candidates than those that they count. -/
theorem stream_eq (h : Attempts draw least n ks s r s') : s' = (drawn draw ks.sum s).2 := by
  induction h with
  | none => rfl
  | found => rw [List.sum_singleton]; rfl
  | short _ _ _ ih => rw [ih, List.sum_cons, drawn_add]; rfl

end Attempts

end

/-- What `xy_random` is asked for: some points in a field around a pole, some way apart. -/
structure PointField where
  count : Nat
  width : Float
  height : Float
  least : Float
  pole : Float × Float

/-- The least distance between points, which is zero if it is not given. -/
def leastOf : Option Value → Except ValidationError Float
  | none => .ok 0.0
  | some v =>
    match v.strictFloat? with
    | some d => if d ≥ 0.0 then .ok d else .error .randomDistance
    | none => .error .randomDistance

theorem leastOf_eq_ok_iff {v : Option Value} {d : Float} :
    leastOf v = .ok d ↔
      v = none ∧ d = 0.0 ∨ ∃ w, v = some w ∧ w.strictFloat? = some d ∧ d ≥ 0.0 := by
  cases v with
  | none => simp [leastOf, eq_comm]
  | some v =>
    constructor
    · intro h
      rw [leastOf] at h
      split at h
      next e he =>
        split at h
        next hpos =>
          cases h
          exact .inr ⟨v, rfl, he, hpos⟩
        next => cases h
      next => cases h
    · rintro (⟨h, -⟩ | ⟨w, hw, hd, hpos⟩)
      · cases h
      · cases hw
        simp only [leastOf, hd, if_pos hpos]

namespace PointField

/-- What some arguments ask for. -/
def ofArguments (arguments : List Value) : Except ValidationError PointField := do
  let count ← pointsWanted "xy_random" .randomCount arguments[0]?
  match arguments[1]? >>= Value.strictFloat?, arguments[2]? >>= Value.strictFloat? with
  | some width, some height => do
    let least ← leastOf arguments[3]?
    (poleOf arguments[4]?).map fun pole => ⟨count, width, height, least, pole⟩
  | _, _ => throw .randomSize

/-- The arguments ask for these points. A least distance that is not given is zero. -/
structure AskedBy (f : PointField) (arguments : List Value) : Prop where
  count : ∃ i : Int64, arguments[0]? >>= Value.int? = some i ∧ i.toInt = f.count
  count_le : f.count ≤ maxLength
  width : arguments[1]? >>= Value.strictFloat? = some f.width
  height : arguments[2]? >>= Value.strictFloat? = some f.height
  least : arguments[3]? = none ∧ f.least = 0.0 ∨
    ∃ v, arguments[3]? = some v ∧ v.strictFloat? = some f.least ∧ f.least ≥ 0.0
  pole : poleOf arguments[4]? = .ok f.pole

theorem ofArguments_eq_ok_iff {f : PointField} {arguments : List Value} :
    ofArguments arguments = .ok f ↔ f.AskedBy arguments := by
  constructor
  · intro h
    obtain ⟨count, hcount, h⟩ := bind_eq_ok h
    split at h
    next width height hwidth hheight =>
      obtain ⟨least, hleast, h⟩ := bind_eq_ok h
      obtain ⟨pole, hpole, rfl⟩ := map_eq_ok h
      obtain ⟨i, hi, hn, hle⟩ := pointsWanted_eq_ok_iff.mp hcount
      exact ⟨⟨i, hi, hn⟩, hle, hwidth, hheight, leastOf_eq_ok_iff.mp hleast, hpole⟩
    next => cases h
  · intro h
    obtain ⟨i, hi, hn⟩ := h.count
    have hcount : pointsWanted "xy_random" .randomCount arguments[0]? = .ok f.count :=
      pointsWanted_eq_ok_iff.mpr ⟨i, hi, hn, h.count_le⟩
    have hleast := leastOf_eq_ok_iff.mpr h.least
    rw [ofArguments, hcount, h.width, h.height, hleast, h.pole]
    rfl

/-- What is returned when the points were found, or when no attempt found them all. -/
def answer : Option (List (Float × Float)) → Except EvalError Value
  | some points => .ok (.list (points.map pointValue))
  | none => .error (.validation .randomFailed)

/-- The points of a field, the next ones of a stream that find a place. -/
def place (f : PointField) (s : RandomStream) : Except EvalError Value × RandomStream :=
  let r := placeAll (randomPoint f.width f.height f.pole) f.least f.count maxTries s
  (answer r.1, r.2)

/-- The last steps of `xy_random`: the pole, the search and the answer. -/
theorem run_placeAll (count : Nat) (width height least : Float) (v : Option Value)
    (s : RandomStream) :
    (do
      let pole ← Eval.ofResult ((poleOf v).mapError .validation)
      match ← placeAll (randomPoint width height pole) least count maxTries with
      | some points => return .list (points.map pointValue)
      | none => throw (.validation .randomFailed) : Eval RandomStream Value).run s =
      match (poleOf v).map (PointField.mk count width height least) with
      | .ok f => f.place s
      | .error cause => (.error (.validation cause), s) := by
  cases poleOf v with
  | error cause => rfl
  | ok pole =>
    have hsearch (r : Option (List (Float × Float))) (s' : RandomStream) :
        (match r with
          | some points => (return .list (points.map pointValue) : Eval RandomStream Value)
          | none => throw (EvalError.validation .randomFailed)).run s' = (answer r, s') := by
      cases r <;> rfl
    exact hsearch _ _

theorem randomPoints_eq (arguments : List Value) (s : RandomStream) :
    (randomPoints arguments).run s =
      match ofArguments arguments with
      | .ok f => f.place s
      | .error cause => (.error (.validation cause), s) := by
  unfold randomPoints ofArguments
  cases pointsWanted "xy_random" .randomCount arguments[0]? with
  | error cause => rfl
  | ok count =>
    cases arguments[1]? >>= Value.strictFloat? with
    | none => rfl
    | some width =>
      cases arguments[2]? >>= Value.strictFloat? with
      | none => rfl
      | some height =>
        have hplaced (least : Float) := run_placeAll count width height least arguments[4]? s
        unfold leastOf
        cases arguments[3]? with
        | none => exact hplaced 0.0
        | some v =>
          dsimp only
          cases v.strictFloat? with
          | none => rfl
          | some d =>
            by_cases hd : d ≥ 0.0
            · simp only [if_pos hd]
              exact hplaced d
            · simp only [if_neg hd]
              rfl

end PointField

/--
Whatever the arguments are and whatever the stream holds, `xy_random` either refuses the arguments
and draws nothing, or goes through attempts that draw a bounded number of candidates each. If one of
them finds all points, these are returned, as many as were asked for and at the least distance from
each other; if none of them does, the last error is returned, after as many attempts as there can
be. As a stream may have any words at hand, this does not depend on how the words are made.
-/
theorem randomPoints_keep_apart (arguments : List Value) (s : RandomStream) :
    ((¬∃ f : PointField, f.AskedBy arguments) ∧
      ∃ cause, (randomPoints arguments).run s = (.error (.validation cause), s)) ∨
    ∃ (f : PointField) (counts : List Nat) (found : Option (List (Float × Float)))
      (s' : RandomStream),
      f.AskedBy arguments ∧
      Attempts (randomPoint f.width f.height f.pole) f.least f.count counts s found s' ∧
      counts.length ≤ maxTries ∧ (∀ k ∈ counts, k ≤ f.count * maxTries) ∧
      s' = (drawn (randomPoint f.width f.height f.pole) counts.sum s).2 ∧
      ((∃ points, found = some points ∧
          (randomPoints arguments).run s = (.ok (.list (points.map pointValue)), s') ∧
          points.length = f.count ∧ Spread f.least points) ∨
        found = none ∧
          (randomPoints arguments).run s = (.error (.validation .randomFailed), s') ∧
          counts.length = maxTries) := by
  cases hf : PointField.ofArguments arguments with
  | error cause =>
    left
    refine ⟨?_, cause, by rw [PointField.randomPoints_eq, hf]⟩
    rintro ⟨f, hasked⟩
    cases hf.symm.trans (PointField.ofArguments_eq_ok_iff.mpr hasked)
  | ok f =>
    right
    have hrun : (randomPoints arguments).run s = f.place s := by
      rw [PointField.randomPoints_eq, hf]
    obtain ⟨counts, hlength, hattempts, hall⟩ :=
      @placeAll_attempts (randomPoint f.width f.height f.pole) f.least f.count maxTries s
    refine ⟨f, counts, _, _, PointField.ofArguments_eq_ok_iff.mp hf, hattempts, hlength,
      hattempts.count_le, hattempts.stream_eq, ?_⟩
    rw [hrun, PointField.place]
    cases hfound :
        (placeAll (randomPoint f.width f.height f.pole) f.least f.count maxTries s).1 with
    | none => exact .inr ⟨rfl, rfl, hall hfound⟩
    | some points =>
      rw [hfound] at hattempts
      exact .inl ⟨points, rfl, rfl, hattempts.spread⟩

end TrialLoop
