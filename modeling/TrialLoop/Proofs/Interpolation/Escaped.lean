import TrialLoop.Proofs.Interpolation.Segments
import Mathlib

namespace TrialLoop

/-- A backslash before each bracket. -/
def escapeBrackets : List Char → List Char
  | [] => []
  | c :: cs => if c = '[' ∨ c = ']' then '\\' :: c :: escapeBrackets cs else c :: escapeBrackets cs

theorem unescapeBrackets_cons {c : Char} (h : c ≠ '\\') (cs : List Char) :
    unescapeBrackets (c :: cs) = c :: unescapeBrackets cs := by
  rw [unescapeBrackets]
  exact fun _ _ he => absurd he h

/-- The backslashes before brackets are dropped again if there are no others. -/
theorem unescapeBrackets_escapeBrackets {cs : List Char} (h : ∀ c ∈ cs, c ≠ '\\') :
    unescapeBrackets (escapeBrackets cs) = cs := by
  induction cs with
  | nil => rfl
  | cons c cs ih =>
    obtain ⟨hne, hcs⟩ := List.forall_mem_cons.mp h
    by_cases hc : c = '[' ∨ c = ']'
    · rw [escapeBrackets, if_pos hc, unescapeBrackets, if_pos hc, ih hcs]
    · rw [escapeBrackets, if_neg hc, unescapeBrackets_cons hne, ih hcs]

/-- The quote mark that is open after a character. -/
def markAfter (mark : Option Char) (c : Char) : Option Char :=
  match mark with
  | some mark => if c = mark then none else some mark
  | none => if isQuoteMark c then some c else none

theorem isQuoteMark_markAfter {mark : Option Char} (hm : ∀ m ∈ mark, isQuoteMark m = true)
    (c : Char) : ∀ m ∈ markAfter mark c, isQuoteMark m = true := by
  unfold markAfter
  split
  next mark =>
    split
    next => simp
    next => exact hm
  next =>
    split
    next hc => simpa using hc
    next => simp

theorem markAfter_of_not_mark {mark : Option Char} (hm : ∀ m ∈ mark, isQuoteMark m = true)
    {c : Char} (hc : isQuoteMark c = false) : markAfter mark c = mark := by
  unfold markAfter
  split
  next mark =>
    have hne : c ≠ mark := by
      rintro rfl
      rw [hm c rfl] at hc
      cases hc
    rw [if_neg hne]
  next => simp [hc]

/-- Where brackets are escaped only quote marks count for the scan. -/
theorem closingBracket?_escapeBrackets {cs : List Char} (h : ∀ c ∈ cs, c ≠ '\\')
    (place depth : Nat) {mark : Option Char} (hm : ∀ m ∈ mark, isQuoteMark m = true)
    (tail : List Char) :
    closingBracket? place depth mark (escapeBrackets cs ++ tail) =
      closingBracket? (place + (escapeBrackets cs).length) depth (cs.foldl markAfter mark)
        tail := by
  induction cs generalizing place mark with
  | nil => rfl
  | cons c cs ih =>
    obtain ⟨hne, hcs⟩ := List.forall_mem_cons.mp h
    by_cases hc : c = '[' ∨ c = ']'
    · have hmark : isQuoteMark c = false := by rcases hc with rfl | rfl <;> rfl
      rw [escapeBrackets, if_pos hc, List.cons_append, List.cons_append, closingBracket?,
        ih hcs _ hm, List.foldl_cons, markAfter_of_not_mark hm hmark]
      simp only [List.length_cons]
      congr 1
      omega
    · have hstep : closingBracket? place depth mark (c :: (escapeBrackets cs ++ tail)) =
          closingBracket? (place + 1) depth (markAfter mark c) (escapeBrackets cs ++ tail) := by
        obtain ⟨ho, hc⟩ := not_or.mp hc
        rw [closingBracket?_cons hne]
        cases mark with
        | some m => rfl
        | none =>
          simp only [markAfter, ho, hc, if_false]
          split <;> rfl
      rw [escapeBrackets, if_neg hc, List.cons_append, hstep,
        ih hcs _ (isQuoteMark_markAfter hm c), List.foldl_cons, List.length_cons]
      congr 1
      omega

/-- Where a scan finds its bracket at the end of some characters, no quoted text is open in it. -/
theorem foldl_markAfter_eq_none {cs : List Char} (h : ∀ c ∈ cs, c ≠ '\\') {place depth : Nat}
    {mark : Option Char}
    (hclose : closingBracket? place depth mark (cs ++ [']']) = some (place + cs.length)) :
    cs.foldl markAfter mark = none := by
  induction cs generalizing place depth mark with
  | nil =>
    cases mark with
    | none => rfl
    | some m =>
      rw [List.nil_append, closingBracket?_cons (by decide)] at hclose
      simp [closingBracket?] at hclose
  | cons c cs ih =>
    obtain ⟨hne, hcs⟩ := List.forall_mem_cons.mp h
    have hplace : place + (c :: cs).length = place + 1 + cs.length := by
      rw [List.length_cons]
      omega
    rw [List.cons_append, closingBracket?_cons hne, hplace] at hclose
    rw [List.foldl_cons]
    cases mark with
    | some m => exact ih hcs hclose
    | none =>
      dsimp only at hclose
      split at hclose
      next hc =>
        rw [markAfter, if_pos hc]
        exact ih hcs hclose
      next hc =>
        rw [markAfter, if_neg hc]
        split at hclose
        next => exact ih hcs hclose
        split at hclose
        next =>
          split at hclose
          next =>
            have := Option.some.inj hclose
            omega
          next => exact ih hcs hclose
        next => exact ih hcs hclose

variable {σ : Type} (context : Context σ)

/-- A text that is one inline expression, however its brackets are written. -/
theorem interpolate_written {source written : List Char}
    (hclose : closingBracket? 0 0 none (written ++ [']']) = some written.length)
    (hsource : unescapeBrackets written = source) :
    interpolate context (String.ofList ('[' :: '=' :: written ++ [']'])) =
      Expr.evalText context (String.ofList source) := by
  have hread : readReference context maxReferences ('=' :: written ++ [']']) = (do
      return (← some <$> Expr.evalText context (String.ofList source)).map
        (⟨·, written.length + 2⟩)) := by
    rw [maxReferences, List.cons_append, readReference, readInline, hclose]
    simp only [List.take_left, hsource, bind_map_left, Option.map_some]
  have hlength : written.length + 2 = ('=' :: written ++ [']']).length := by simp
  rw [List.cons_append, interpolate_reference context hread]
  simp only [bind_map_left, if_pos hlength, bind_pure]

/--
An inline expression has the value, the error and the effects of its expression. Its brackets may
be written as they are or, if it has no backslash, with one before each.
-/
theorem interpolate_eq_evalText {source : String} {body : Expr}
    (hr : Expr.read source = .ok body) :
    (NoEscapedBracket source.toList →
      interpolate context ("[=" ++ source ++ "]") = Expr.evalText context source) ∧
    ('\\' ∉ source.toList →
      interpolate context ("[=" ++ String.ofList (escapeBrackets source.toList) ++ "]") =
        Expr.evalText context source) := by
  have hclose := @closingBracket?_of_read source.toList body (by rwa [String.ofList_toList]) []
  have htext : ∀ cs : List Char, "[=" ++ String.ofList cs ++ "]" =
      String.ofList ('[' :: '=' :: cs ++ [']']) := by
    intro cs
    apply String.toList_inj.mp
    simp
  constructor
  · intro h
    have hwritten := interpolate_written context hclose (unescapeBrackets_eq_self h)
    rwa [← htext, String.ofList_toList] at hwritten
  · intro h
    have hplain : ∀ c ∈ source.toList, c ≠ '\\' := by
      rintro c hc rfl
      exact h hc
    have hmark := foldl_markAfter_eq_none hplain
      (hclose.trans (congrArg some (Nat.zero_add _).symm))
    have hescaped := @closingBracket?_escapeBrackets _ hplain 0 0 none (by simp) [']']
    rw [hmark, Nat.zero_add] at hescaped
    have hwritten := interpolate_written context hescaped (unescapeBrackets_escapeBrackets hplain)
    rwa [← htext, String.ofList_toList] at hwritten

/-- A context in which every name stands for three, and which has no function. -/
def threeContext : Context Unit where
  lookup _ := return some (.int 3)
  call name _ := throw (.unknownFunction name)

set_option maxRecDepth 4000 in
theorem interpolate_eq_evalText_indexed :
    let tree := Expr.index (.list [.literal (.str "a]"), .name "x"]) (.literal (.int 1))
    Expr.read "['a]', x][1]" = .ok tree ∧ NoEscapedBracket "['a]', x][1]".toList ∧
      '\\' ∉ "['a]', x][1]".toList ∧
      interpolate threeContext "[=['a]', x][1]]" = Expr.evalText threeContext "['a]', x][1]" ∧
      interpolate threeContext "[=\\['a\\]', x\\]\\[1\\]]" =
        Expr.evalText threeContext "['a]', x][1]" := by
  intro tree
  have hread : Expr.read "['a]', x][1]" = .ok tree := by cbv
  have hnone : NoEscapedBracket "['a]', x][1]".toList := by decide +kernel
  have hplain : '\\' ∉ "['a]', x][1]".toList := by decide +kernel
  obtain ⟨hasis, hescaped⟩ := interpolate_eq_evalText threeContext hread
  exact ⟨hread, hnone, hplain, hasis hnone, hescaped hplain⟩

end TrialLoop
