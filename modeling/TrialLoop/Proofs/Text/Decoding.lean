import TrialLoop.Expr.Eval
import TrialLoop.Proofs.Command.Quoted
import TrialLoop.Proofs.Condition.Meaning

namespace TrialLoop

/-- What stands between the marks are the escapes of the text and no others. -/
theorem collapseEscapes_inside (s : String) :
    collapseEscapes (String.ofList (quote s).toList.tail.dropLast) = s := by
  have hinside : (quote s).toList.tail.dropLast = escapeQuotes s.toList := by
    rw [toList_quote]
    exact List.dropLast_concat
  rw [collapseEscapes, hinside, String.toList_ofList, unescapeMark_escapeQuotes,
    String.ofList_toList]

/-- Expressions have escapes of their own, but the two that quotes write mean the same there. -/
theorem Expr.read_quote (s : String) : Expr.read (quote s) = .ok (.literal (.str s)) := by
  have htokens : tokens (quote s).toList = .ok [.str s] := by
    have h := tokens_quote (s := s.toList) tokens_nil
    rw [List.append_nil, String.ofList_toList] at h
    rw [toList_quote]
    exact h
  have hderives : Derives [.str s] (.level .or (.literal (.str s))) :=
    .loosen .or (.loosen .and (.comparison (.sum Derives.str.sum_of_primary)))
  exact (read_of_derives htokens hderives).resolve_right (by simp [maxNesting])

theorem Expr.evalText_quote {σ : Type} (context : Context σ) (s : String) :
    Expr.evalText context (quote s) = pure (.str s) := by
  rw [Expr.evalText, Expr.read_quote]
  rfl

/-- After the name of a command a text in quotes is one argument, by position. -/
theorem Command.read_quote {name : String} (h : IsBare name) (s : String) :
    Command.read (name ++ " " ++ quote s) = .ok ⟨name, [.str s], []⟩ := by
  have hline : name ++ " " ++ quote s = wordLine name [quote s] := by
    simp [wordLine, String.ext_iff]
  have hall : ∀ w ∈ [name, quote s], IsWord w := by
    simp only [List.forall_mem_cons]
    exact ⟨.inl h, isWord_quote s, by simp⟩
  rw [hline, Command.read, words_wordLine hall]
  show Except.ok ([quote s].foldr Command.addWord { name := unquote name }) = _
  rw [List.foldr_cons, List.foldr_nil, Command.addWord_quote, h.unquote]

/--
Whatever reads texts in quotes gives back the text that was put in them: a word without its quotes,
the text between them with its escapes collapsed, an expression in every context, and a command.
-/
theorem quoted_text_decodes (s : String) :
    unquote (quote s) = s ∧
      collapseEscapes (String.ofList (quote s).toList.tail.dropLast) = s ∧
      (∀ {σ : Type} (context : Context σ), Expr.evalText context (quote s) = pure (.str s)) ∧
      Command.read ("c " ++ quote s) = .ok ⟨"c", [.str s], []⟩ := by
  have hcommand : Command.read ("c" ++ " " ++ quote s) = .ok ⟨"c", [.str s], []⟩ :=
    Command.read_quote (by decide) s
  exact ⟨unquote_quote s, collapseEscapes_inside s, fun context => Expr.evalText_quote context s,
    hcommand⟩

end TrialLoop
