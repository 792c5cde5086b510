import TrialLoop.Proofs.Interpolation.Inline

namespace TrialLoop

/-- The names that references can have. -/
structure ReferenceName where
  chars : List Char
  ne_nil : chars ≠ []
  all_nameChar : ∀ c ∈ chars, isNameChar c = true

/-- The parts that a text with references is put together from. -/
inductive Segment where
  | plain (cs : List Char) (h : cs ≠ [] ∧ ∀ c ∈ cs, c ≠ '[' ∧ c ≠ '\\')
  | escape
  | reference (name : ReferenceName)
  /-- A reference after a backslash that another one escapes. -/
  | kept (name : ReferenceName)
  | inline (source : List Char) (body : Expr) (read : Expr.read (String.ofList source) = .ok body)
      (h : NoEscapedBracket source)

namespace ReferenceName

def text (name : ReferenceName) : List Char :=
  '[' :: name.chars ++ [']']

theorem plain (name : ReferenceName) : ∀ c ∈ name.chars ++ [']'], c ≠ '[' ∧ c ≠ '\\' := by
  intro c hc
  rcases List.mem_append.mp hc with hc | hc
  · have h := name.all_nameChar c hc
    constructor <;> rintro rfl <;> revert h <;> decide
  · rw [List.mem_singleton.mp hc]
    decide

end ReferenceName

namespace Segment

def text : Segment → List Char
  | plain cs _ => cs
  | escape => ['\\', '[']
  | reference name => name.text
  | kept name => '\\' :: '\\' :: name.text
  | inline source _ _ _ => '[' :: '=' :: source ++ [']']

end Segment

example : ([.escape, .plain ['a', ']'] (by simp), .reference ⟨['x'], by simp, by simp; decide⟩] :
    List Segment).flatMap Segment.text = "\\[a][x]".toList := rfl

section

variable {σ : Type} (context : Context σ)

/-- The value of a variable, or the reference as it is written if there is none. -/
def ReferenceName.value (name : ReferenceName) : Eval σ Value := do
  match ← context.lookup (String.ofList name.chars) with
  | some v => return v
  | none => return .str (String.ofList name.text)

namespace Segment

/-- The characters that take the place of a segment. -/
def rendered : Segment → Eval σ (List Char)
  | plain cs _ => return cs
  | escape => return ['[']
  | reference name => return (← name.value context).text.toList
  | kept name => return '\\' :: (← name.value context).text.toList
  | inline _ body _ _ => return (← body.eval context).text.toList

/-- The characters that take the places of segments, from left to right. -/
def renderedAll : List Segment → Eval σ (List Char)
  | [] => return []
  | s :: ss => return (← s.rendered context) ++ (← renderedAll ss)

/-- The value of a text of segments: that of its only segment if this is one, or else a text. -/
def meaning : List Segment → Eval σ Value
  | [reference name] => name.value context
  | [inline _ body _ _] => body.eval context
  | ss => return .str (String.ofList (← renderedAll context ss))

end Segment

theorem fillText_skip (us rest out : List Char) :
    fillText context out us.length (us ++ rest) = fillText context out 0 rest := by
  induction us with
  | nil => rfl
  | cons u us ih => exact ih

theorem fillText_plain {cs : List Char} (h : ∀ c ∈ cs, c ≠ '[' ∧ c ≠ '\\') (out rest : List Char) :
    fillText context out 0 (cs ++ rest) = fillText context (cs.reverse ++ out) 0 rest := by
  induction cs generalizing out with
  | nil => rfl
  | cons c cs ih =>
    obtain ⟨ho, hb⟩ := h c List.mem_cons_self
    rw [List.cons_append, fillText, if_neg (fun hc => hb hc.1), if_neg ho,
      ih fun d hd => h d (List.mem_cons_of_mem c hd)]
    simp

theorem readName_chars {cs : List Char} (h : ∀ c ∈ cs, isNameChar c = true)
    (inner : List Char → Eval σ (Option Found)) (name : List Char) (length : Nat)
    (rest : List Char) :
    readName context inner name length 0 (cs ++ ']' :: rest) =
      findVariable context (name.reverse ++ cs) (length + cs.length + 1) := by
  induction cs generalizing name length with
  | nil => simp [readName]
  | cons c cs ih =>
    have hc := h c List.mem_cons_self
    have hne : c ≠ ']' ∧ c ≠ '[' := by
      constructor <;> rintro rfl <;> revert hc <;> decide
    rw [List.cons_append, readName, if_neg hne.1, if_neg hne.2, if_pos hc,
      ih fun d hd => h d (List.mem_cons_of_mem c hd)]
    simp only [List.reverse_cons, List.append_assoc, List.singleton_append, List.length_cons]
    congr 1
    omega

/-- The reference that a name in brackets is. -/
theorem readReference_name (name : ReferenceName) (rest : List Char) :
    readReference context maxReferences (name.chars ++ ']' :: rest) = (do
      return (← context.lookup (String.ofList name.chars)).map (⟨·, name.chars.length + 1⟩)) := by
  obtain ⟨cs, hne, hall⟩ := name
  have hequals : ∀ ds, cs ++ ']' :: rest ≠ '=' :: ds := by
    intro ds he
    cases cs with
    | nil => exact hne rfl
    | cons c cs =>
      cases he
      revert hall
      simp [isNameChar]
  have hname : ¬(cs = [] ∨ (!cs.all isNameChar) = true) := by simpa [hne] using hall
  rw [maxReferences, readReference]
  · rw [readName_chars context hall, findVariable, List.reverse_nil, List.nil_append, if_neg hname,
      Nat.zero_add]
    refine bind_congr fun found => ?_
    cases found with
    | none => rfl
    | some v => rfl
  · exact fun ds he => hequals ds he

theorem readReference_inline {source : List Char} {body : Expr}
    (hr : Expr.read (String.ofList source) = .ok body) (h : NoEscapedBracket source)
    (rest : List Char) :
    readReference context maxReferences ('=' :: source ++ ']' :: rest) = (do
      return (← some <$> body.eval context).map (⟨·, source.length + 2⟩)) := by
  rw [maxReferences, List.cons_append, readReference, readInline, closingBracket?_of_read hr]
  simp only [List.take_left, unescapeBrackets_eq_self h, Expr.evalText, hr, bind_map_left,
    Option.map_some]

theorem fillText_reference (name : ReferenceName) (out rest : List Char) :
    fillText context out 0 (name.text ++ rest) = (do
      let v ← name.value context
      fillText context (v.text.toList.reverse ++ out) 0 rest) := by
  have htext : name.text ++ rest = '[' :: (name.chars ++ ']' :: rest) := by
    simp [ReferenceName.text]
  have hplain := fillText_plain context name.plain ('[' :: out) rest
  have hskip := fillText_skip context (name.chars ++ [']']) rest
  simp only [List.append_assoc, List.singleton_append, List.length_append, List.length_singleton]
    at hplain hskip
  rw [htext, fillText, if_neg (fun hc => absurd hc.1 (by decide)), if_pos rfl,
    readReference_name, ReferenceName.value]
  simp only [bind_assoc]
  refine bind_congr fun found => ?_
  cases found with
  | none =>
    simp only [pure_bind, Option.map_none]
    rw [hplain]
    simp [Value.text, ReferenceName.text]
  | some v =>
    simp only [pure_bind, Option.map_some]
    rw [hskip]

theorem fillText_segment (s : Segment) (out rest : List Char) :
    fillText context out 0 (s.text ++ rest) = (do
      let cs ← s.rendered context
      fillText context (cs.reverse ++ out) 0 rest) := by
  cases s with
  | plain cs h => exact fillText_plain context h.2 out rest
  | escape => rfl
  | reference name =>
    rw [Segment.text, fillText_reference, Segment.rendered]
    simp only [bind_assoc, pure_bind]
  | kept name =>
    have htext : (Segment.kept name).text ++ rest = '\\' :: '\\' :: (name.text ++ rest) := rfl
    have hkept : fillText context out 0 ('\\' :: '\\' :: (name.text ++ rest)) =
        fillText context ('\\' :: out) 0 (name.text ++ rest) := rfl
    rw [htext, hkept, fillText_reference, Segment.rendered]
    simp only [bind_assoc, pure_bind, List.reverse_cons, List.append_assoc, List.singleton_append]
  | inline source body hr h =>
    have htext : (Segment.inline source body hr h).text ++ rest =
        '[' :: ('=' :: source ++ ']' :: rest) := by simp [Segment.text]
    have hskip := fillText_skip context ('=' :: source ++ [']']) rest
    simp only [List.append_assoc, List.singleton_append, List.length_append, List.length_cons]
      at hskip
    rw [htext, fillText, if_neg (fun hc => absurd hc.1 (by decide)), if_pos rfl,
      readReference_inline context hr h, Segment.rendered]
    simp only [bind_assoc, pure_bind, bind_map_left, Option.map_some]
    refine bind_congr fun v => ?_
    exact hskip _

theorem fillText_segments (ss : List Segment) (out : List Char) :
    fillText context out 0 (ss.flatMap Segment.text) = (do
      let cs ← Segment.renderedAll context ss
      return String.ofList (out.reverse ++ cs)) := by
  induction ss generalizing out with
  | nil => simp [Segment.renderedAll, fillText]
  | cons s ss ih =>
    rw [List.flatMap_cons, fillText_segment, Segment.renderedAll]
    simp only [ih, bind_assoc, pure_bind, List.reverse_append, List.reverse_reverse,
      List.append_assoc]

theorem interpolate_unreferenced {cs : List Char} (h : ∀ ds, cs ≠ '[' :: ds) :
    interpolate context (String.ofList cs) = (do
      return .str (← fillText context [] 0 cs)) := by
  rw [interpolate, String.toList_ofList]
  split
  next ds => exact absurd rfl (h ds)
  next => rfl

theorem bracketFollows_of_not_mem {cs : List Char} (h : '[' ∉ cs) : bracketFollows cs = false := by
  unfold bracketFollows
  split
  next => exact absurd List.mem_cons_self h
  next => exact absurd (List.mem_cons_of_mem _ List.mem_cons_self) h
  next => rfl

theorem fillText_of_not_mem {cs : List Char} (h : '[' ∉ cs) (out : List Char) :
    fillText context out 0 cs = pure (String.ofList (out.reverse ++ cs)) := by
  induction cs generalizing out with
  | nil => rw [fillText, List.append_nil]
  | cons c cs ih =>
    obtain ⟨hc, hcs⟩ := not_or.mp (mt List.mem_cons.mpr h)
    rw [fillText, if_neg (by simp [bracketFollows_of_not_mem hcs]), if_neg (Ne.symm hc), ih hcs]
    simp

/-- A text without opening brackets is its own value. -/
theorem interpolate_of_not_mem {s : String} (h : '[' ∉ s.toList) :
    interpolate context s = pure (.str s) := by
  have hhead : ∀ ds, s.toList ≠ '[' :: ds := fun ds he => h (he ▸ List.mem_cons_self)
  have hfilled := interpolate_unreferenced context hhead
  rw [String.ofList_toList, fillText_of_not_mem context h, pure_bind] at hfilled
  rw [hfilled, List.reverse_nil, List.nil_append, String.ofList_toList]

/-- A text that starts with a reference, whose value is found over some characters. -/
theorem interpolate_reference {cs : List Char} {m : Eval σ (Option Value)} {n : Nat}
    (h : readReference context maxReferences cs = (do return (← m).map (⟨·, n⟩))) :
    interpolate context (String.ofList ('[' :: cs)) = (do
      match ← m with
      | some v =>
        if n = cs.length then return v
        else return .str (← fillText context v.text.toList.reverse n cs)
      | none => return .str (← fillText context ['['] 0 cs)) := by
  rw [interpolate, String.toList_ofList]
  simp only [h, bind_assoc, pure_bind]
  refine bind_congr fun found => ?_
  cases found with
  | none => rfl
  | some v => rfl

/-- A reference that is not the whole text is filled in as in the middle of it. -/
theorem interpolate_partial {cs : List Char} {m : Eval σ (Option Value)} {n : Nat}
    (h : readReference context maxReferences cs = (do return (← m).map (⟨·, n⟩)))
    (hn : n ≠ cs.length) :
    interpolate context (String.ofList ('[' :: cs)) = (do
      return .str (← fillText context [] 0 ('[' :: cs))) := by
  rw [interpolate_reference context h, fillText, if_neg (fun hc => absurd hc.1 (by decide)),
    if_pos rfl, h]
  simp only [bind_assoc, pure_bind, if_neg hn]
  refine bind_congr fun found => ?_
  cases found with
  | none => rfl
  | some v => simp only [Option.map_some, List.append_nil]

theorem Segment.text_ne_nil (s : Segment) : s.text ≠ [] := by
  cases s with
  | plain cs h => exact h.1
  | _ => exact List.cons_ne_nil _ _

theorem Segment.length_pos (s : Segment) (ss : List Segment) :
    0 < ((s :: ss).flatMap text).length := by
  rw [List.flatMap_cons, List.length_append]
  have := List.length_pos_iff.mpr s.text_ne_nil
  omega

theorem interpolate_filled {ss : List Segment}
    (h : interpolate context (String.ofList (ss.flatMap Segment.text)) = (do
      return .str (← fillText context [] 0 (ss.flatMap Segment.text)))) :
    interpolate context (String.ofList (ss.flatMap Segment.text)) = (do
      return .str (String.ofList (← Segment.renderedAll context ss))) := by
  rw [h, fillText_segments]
  simp only [bind_assoc, pure_bind, List.reverse_nil, List.nil_append]

theorem interpolate_name (name : ReferenceName) :
    interpolate context (String.ofList name.text) = name.value context := by
  have hlength : name.chars.length + 1 = (name.chars ++ [']']).length := by simp
  have hplain := fillText_plain context name.plain ['['] []
  have htext : name.text = '[' :: (name.chars ++ [']']) := rfl
  rw [htext, interpolate_reference context (readReference_name context name []), ReferenceName.value]
  refine bind_congr fun found => ?_
  cases found with
  | some v => simp only [if_pos hlength]
  | none =>
    rw [List.append_nil] at hplain
    simp only [hplain, fillText, pure_bind, htext]
    simp

theorem interpolate_inline {source : List Char} {body : Expr}
    (hr : Expr.read (String.ofList source) = .ok body) (h : NoEscapedBracket source) :
    interpolate context (String.ofList (Segment.inline source body hr h).text) =
      body.eval context := by
  have hlength : source.length + 2 = ('=' :: source ++ [']']).length := by simp
  have htext : (Segment.inline source body hr h).text = '[' :: ('=' :: source ++ [']']) := rfl
  rw [htext, interpolate_reference context (readReference_inline context hr h [])]
  simp only [bind_map_left, if_pos hlength, bind_pure]

/--
A text of segments has the value that they have one after the other: none of them takes anything
from the next one.
-/
theorem interpolate_segments (ss : List Segment) :
    interpolate context (String.ofList (ss.flatMap Segment.text)) =
      Segment.meaning context ss := by
  match ss with
  | [] => exact interpolate_filled context (interpolate_unreferenced context (by simp))
  | .plain cs h :: ss =>
    refine interpolate_filled context (interpolate_unreferenced context fun ds he => ?_)
    obtain ⟨c, cs, rfl⟩ := List.exists_cons_of_ne_nil h.1
    cases he
    exact (h.2 '[' List.mem_cons_self).1 rfl
  | .escape :: ss =>
    exact interpolate_filled context (interpolate_unreferenced context (by simp [Segment.text]))
  | .kept name :: ss =>
    exact interpolate_filled context (interpolate_unreferenced context (by simp [Segment.text]))
  | [.reference name] =>
    rw [List.flatMap_cons, List.flatMap_nil, List.append_nil]
    exact interpolate_name context name
  | [.inline source body hr h] =>
    rw [List.flatMap_cons, List.flatMap_nil, List.append_nil]
    exact interpolate_inline context hr h
  | .reference name :: s :: ss =>
    refine interpolate_filled context ?_
    have hpos := s.length_pos ss
    have htext : (Segment.reference name :: s :: ss).flatMap Segment.text =
        '[' :: (name.chars ++ ']' :: (s :: ss).flatMap Segment.text) := by
      simp [Segment.text, ReferenceName.text]
    rw [htext]
    refine interpolate_partial context (readReference_name context name _) ?_
    simp only [List.length_append, List.length_cons]
    omega
  | .inline source body hr h :: s :: ss =>
    refine interpolate_filled context ?_
    have hpos := s.length_pos ss
    have htext : (Segment.inline source body hr h :: s :: ss).flatMap Segment.text =
        '[' :: ('=' :: source ++ ']' :: (s :: ss).flatMap Segment.text) := by
      simp [Segment.text]
    rw [htext]
    refine interpolate_partial context (readReference_inline context hr h _) ?_
    simp only [List.length_append, List.length_cons]
    omega

end

end TrialLoop
