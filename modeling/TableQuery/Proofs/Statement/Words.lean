import TableQuery.Proofs.Statement.Labels

/-! What the words mean that are written where a command has a value. A word is null, a boolean or its own
text, unless it spells a label of the command, for words and labels are looked up alike. -/

namespace TableQuery

namespace Reading

variable {text : String} {subs : Option Substitutions} {s : Statement} {r : Reading text subs s} {w : String}

/-- No label that is spelled like the word stands for anything but the text of the word. -/
def WordApart (r : Reading text subs s) (w : String) : Prop :=
  ∀ k v, r.extraction.values[k]? = some v → w.toList = label (k + 1) → v = .text w

theorem value_word_iff : (Scalar.word w).value r.extraction = Statement.bareWord w ↔ r.WordApart w := by
  rw [Scalar.value]
  constructor
  · intro h k v hv hword
    have hlabel : w = String.ofList (label (k + 1)) := by rw [← hword, String.ofList_toList]
    have hunderscore : '_' ∈ w.toList := hword ▸ label_eq_cons (k + 1) ▸ List.mem_cons_self
    rwa [Statement.bareWord_of_underscore hunderscore, hlabel, Extraction.resolve?_label hv, Option.getD_some,
      ← hlabel] at h
  · intro h
    cases hresolve : r.extraction.resolve? w with
    | none => rfl
    | some v =>
        obtain ⟨k, hk, hword⟩ := Extraction.exists_of_resolve? hresolve
        have hunderscore : '_' ∈ w.toList := hword ▸ label_eq_cons (k + 1) ▸ List.mem_cons_self
        rw [Option.getD_some, h k v hk hword, Statement.bareWord_of_underscore hunderscore]

/-- What the words come to that are written in the places of values. -/
structure WordsRead (r : Reading text subs s) : Prop where
  /-- The values of the statement are those of the places, in their order; a limit comes last. -/
  values : s.values ++ (r.derivation.form.map (Scalar.value r.extraction)).limit?.toList =
    (valuesIn r.derivation.form.symbols).map (Scalar.value r.extraction)
  /-- A word that is read from written stretches is written in the command. -/
  written : ∀ w own, (.value (.word w), own) ∈ r.leaves → Stretch.Written own → w.toList <:+: text.toList
  /-- Such a word means itself exactly if no label that is spelled like it stands for something else. -/
  means_iff : ∀ w own, (.value (.word w), own) ∈ r.leaves → Stretch.Written own →
    ((Scalar.word w).value r.extraction = Statement.bareWord w ↔ r.WordApart w)
  /-- Every written word means itself in a command without the beginning of a label. -/
  fresh : ¬ "_LIT".toList <:+: text.toList → ∀ w own, (.value (.word w), own) ∈ r.leaves →
    Stretch.Written own → (Scalar.word w).value r.extraction = Statement.bareWord w

end Reading

variable {text : String} {subs : Option Substitutions} {s : Statement}

/-- **A written word means itself exactly if it does not spell a label of something else.** -/
theorem Statement.words_read (h : ofText text subs = .ok s) :
    Nonempty (Reading text subs s) ∧ ∀ r : Reading text subs s, r.WordsRead := by
  refine ⟨nonempty_reading h, fun r => ⟨r.values_eq.symm, ?_, fun w own _ _ => r.value_word_iff, ?_⟩⟩
  · intro w own hleaf hown
    rw [(Reading.word_of_ident hleaf rfl).1]
    exact Reading.infix_of_written hleaf hown
  · intro htext w own hleaf hown
    refine Reading.value_word_iff.2 fun k v _ hword => ?_
    rw [(Reading.word_of_ident hleaf rfl).1] at hword
    refine absurd ?_ (Reading.not_infix_of_written htext (n := k + 1) hleaf hown)
    rw [hword]

/-- The condition that `a` is this word and `b` is a quoted text. -/
def quotedDeletion (word : String) : Derivation :=
  ⟨.delete ⟨none, "t"⟩ (some (.join (.leaf ⟨"a", .eq, .word word⟩) .and
    (.last (.leaf ⟨"b", .eq, .word "_LIT1_"⟩)))), false⟩

/-- The first word is spelled like a label, but not like the one of the quoted text. -/
theorem Statement.words_read_beside_literal :
    ofText "DELETE FROM t WHERE a = _LIT2_ AND b = 'x'" none = .ok (.delete ⟨⟨none, "t"⟩,
        some ⟨[.term ⟨"a", .eq, .text "_LIT2_"⟩, .and, .term ⟨"b", .eq, .text "x"⟩]⟩⟩) ∧
      Nonempty (Reading "DELETE FROM t WHERE a = _LIT2_ AND b = 'x'" none (.delete ⟨⟨none, "t"⟩,
        some ⟨[.term ⟨"a", .eq, .text "_LIT2_"⟩, .and, .term ⟨"b", .eq, .text "x"⟩]⟩⟩)) ∧
      ∀ r : Reading "DELETE FROM t WHERE a = _LIT2_ AND b = 'x'" none (.delete ⟨⟨none, "t"⟩,
        some ⟨[.term ⟨"a", .eq, .text "_LIT2_"⟩, .and, .term ⟨"b", .eq, .text "x"⟩]⟩⟩), r.WordsRead := by
  have he : Extraction.ofText "DELETE FROM t WHERE a = _LIT2_ AND b = 'x'" none =
      .ok ⟨"DELETE FROM t WHERE a = _LIT2_ AND b = _LIT1_".toList, [.text "x"]⟩ := by
    cbv
  have hs := ofText_of_derivation he (d := quotedDeletion "_LIT2_") (s := .delete ⟨⟨none, "t"⟩,
    some ⟨[.term ⟨"a", .eq, .text "_LIT2_"⟩, .and, .term ⟨"b", .eq, .text "x"⟩]⟩⟩) (by decide +kernel)
    (by decide +kernel)
  exact ⟨hs, words_read hs⟩

/-- A written word is read as the quoted text that stands elsewhere in the command. -/
theorem Statement.word_read_as_label :
    ofText "DELETE FROM t WHERE a = _LIT1_ AND b = 'x'" none = .ok (.delete ⟨⟨none, "t"⟩,
        some ⟨[.term ⟨"a", .eq, .text "x"⟩, .and, .term ⟨"b", .eq, .text "x"⟩]⟩⟩) ∧
      bareWord "_LIT1_" = .text "_LIT1_" := by
  have he : Extraction.ofText "DELETE FROM t WHERE a = _LIT1_ AND b = 'x'" none =
      .ok ⟨"DELETE FROM t WHERE a = _LIT1_ AND b = _LIT1_".toList, [.text "x"]⟩ := by
    cbv
  exact ⟨ofText_of_derivation he (d := quotedDeletion "_LIT1_") (by decide +kernel) (by decide +kernel),
    bareWord_of_underscore (by decide)⟩

end TableQuery
