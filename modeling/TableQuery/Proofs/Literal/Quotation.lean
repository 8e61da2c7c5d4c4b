import TableQuery.Proofs.Literal.Label
import TableQuery.Proofs.Statement.Layout

/-! Quoted texts. The scanner finds the end of a quoted text and its content as they are declared, and fails
exactly if a quote is left open. A text that is quoted with its quotes and backslashes escaped comes back as
the value of its label, whatever it contains. -/

namespace TableQuery

open Text

/-! ### The end of a quoted text -/

/-- No quote ends the text behind an opening quote. -/
def StaysOpen (quote : Char) (cs : List Char) : Prop :=
  ∀ body content rest, Body quote body content → cs ≠ body ++ quote :: rest

section Body

variable {quote : Char} {cs content rest : List Char}

theorem exists_body (hquote : quote ≠ '\\') (h : takeQuoted quote cs = some (content, rest)) :
    ∃ body, Body quote body content ∧ cs = body ++ quote :: rest := by
  fun_induction takeQuoted quote cs generalizing content rest with
  | case1 => cases h
  | case2 c cs hc ih =>
      obtain ⟨p, hp, heq⟩ := Option.map_eq_some_iff.1 h
      cases heq
      obtain ⟨body, hbody, rfl⟩ := ih hp
      exact ⟨'\\' :: c :: body, .escape (by simpa using hc) hbody, rfl⟩
  | case3 c cs hc ih =>
      obtain ⟨p, hp, heq⟩ := Option.map_eq_some_iff.1 h
      cases heq
      obtain ⟨body, hbody, heq⟩ := ih hp
      have hplain : c ≠ quote ∧ c ≠ '\\' := by simpa using hc
      -- the character behind a lone backslash is no quote, so it is in the body
      have hhead : ∃ d ∈ body.head?, d ≠ quote ∧ d ≠ '\\' := by
        cases body with
        | nil => exact absurd (List.cons.inj heq).1 hplain.1
        | cons d body =>
            cases heq
            exact ⟨c, rfl, hplain⟩
      exact ⟨'\\' :: body, .char hquote.symm (fun _ => hhead) hbody, by rw [heq, List.cons_append]⟩
  | case4 cs =>
      cases h
      exact ⟨[], .nil, rfl⟩
  | case5 c cs hlone hc ih =>
      obtain ⟨p, hp, heq⟩ := Option.map_eq_some_iff.1 h
      cases heq
      obtain ⟨body, hbody, rfl⟩ := ih hp
      -- a backslash here would be the last character, with no quote behind it
      have hne : c ≠ '\\' := by
        rintro rfl
        obtain ⟨d, ds, hcs⟩ := List.exists_cons_of_ne_nil (List.append_ne_nil_of_right_ne_nil body
          (List.cons_ne_nil quote p.2))
        exact hlone d ds rfl hcs
      exact ⟨c :: body, .char hc (fun h => absurd h hne) hbody, rfl⟩

/-- **The scanner finds the end of a quoted text where a body of it ends, and its content.** -/
theorem takeQuoted_eq_some_iff (hquote : quote ≠ '\\') :
    takeQuoted quote cs = some (content, rest) ↔
      ∃ body, Body quote body content ∧ cs = body ++ quote :: rest := by
  constructor
  · exact exists_body hquote
  · rintro ⟨body, hbody, rfl⟩
    exact takeQuoted_of_body hquote hbody rest

theorem takeQuoted_eq_none_iff (hquote : quote ≠ '\\') : takeQuoted quote cs = none ↔ StaysOpen quote cs := by
  rw [Option.eq_none_iff_forall_ne_some]
  constructor
  · intro h body content rest hbody heq
    exact h (content, rest) ((takeQuoted_eq_some_iff hquote).2 ⟨body, hbody, heq⟩)
  · rintro h ⟨content, rest⟩ hsome
    obtain ⟨body, hbody, heq⟩ := (takeQuoted_eq_some_iff hquote).1 hsome
    exact h body content rest hbody heq

end Body

/-! ### Open quotes -/

/-- A quote in the text begins a quoted text that does not end. -/
inductive LeavesOpen (quote : Char) : List Char → Prop
  | here {cs : List Char} (hquote : isQuote quote) (hopen : StaysOpen quote cs) : LeavesOpen quote (quote :: cs)
  | char {c : Char} {cs : List Char} (hc : ¬ isQuote c) (hcs : LeavesOpen quote cs) : LeavesOpen quote (c :: cs)
  | literal {mark : Char} {body content rest : List Char} (hmark : isQuote mark)
      (hbody : Body mark body content) (hrest : LeavesOpen quote rest) :
      LeavesOpen quote (mark :: (body ++ mark :: rest))

section Open

variable {quote : Char} {cs : List Char}

theorem replaceQuoted_open (hquote : isQuote quote) (h : takeQuoted quote cs = none) (count : Nat) :
    replaceQuoted count (quote :: cs) = .error (.malformed (.openQuote quote)) := by
  unfold isQuote at hquote
  rw [replaceQuoted, if_pos hquote]
  split
  next => rfl
  next hsome =>
    rw [h] at hsome
    cases hsome

theorem replaceQuoted_of_leavesOpen (h : LeavesOpen quote cs) (count : Nat) :
    replaceQuoted count cs = .error (.malformed (.openQuote quote)) := by
  induction h generalizing count with
  | here hquote hopen =>
      have hnone := (takeQuoted_eq_none_iff (backslash_ne_of_isQuote hquote)).2 hopen
      exact replaceQuoted_open hquote hnone count
  | char hc _ ih =>
      rw [replaceQuoted_plain hc, ih]
      rfl
  | literal hmark hbody _ ih =>
      have htake := takeQuoted_of_body (backslash_ne_of_isQuote hmark) hbody
      rw [replaceQuoted_quote hmark (htake _), ih]
      rfl

theorem exists_leavesOpen {count : Nat} {err : QueryError} (h : replaceQuoted count cs = .error err) :
    ∃ quote, err = .malformed (.openQuote quote) ∧ LeavesOpen quote cs := by
  fun_induction replaceQuoted count cs generalizing err with
  | case1 => cases h
  | case2 count c cs hc hnone =>
      cases h
      have hmark : isQuote c := hc
      exact ⟨c, rfl, .here hmark ((takeQuoted_eq_none_iff (backslash_ne_of_isQuote hmark)).1 hnone)⟩
  | case3 count c cs hc content rest hsome _ ih =>
      have hmark : isQuote c := hc
      obtain ⟨body, hbody, rfl⟩ := exists_body (backslash_ne_of_isQuote hmark) hsome
      rcases bind_eq_error_iff.1 h with hrest | ⟨p, -, hpure⟩
      · obtain ⟨quote, herr, hopen⟩ := ih hrest
        exact ⟨quote, herr, .literal hmark hbody hopen⟩
      · cases hpure
  | case4 count c cs hc ih =>
      rcases bind_eq_error_iff.1 h with hrest | ⟨p, -, hpure⟩
      · obtain ⟨quote, herr, hopen⟩ := ih hrest
        exact ⟨quote, herr, .char hc hopen⟩
      · cases hpure

theorem filled_ne_malformed {count : Nat} {err : QueryError} {value : Option Value}
    {rest : Except QueryError (List Char × List Value)} {fault : SyntaxFault}
    (herr : err ≠ .malformed fault) (hrest : rest ≠ .error (.malformed fault)) :
    filled count err value rest ≠ .error (.malformed fault) := by
  intro h
  cases value with
  | none => exact herr (Except.error.inj h)
  | some v => exact hrest (map_eq_error_iff.1 h)

theorem replacePlaceholders_ne_malformed (subs : Option Substitutions) (given count : Nat) (left : List Value)
    (cs : List Char) (fault : SyntaxFault) :
    replacePlaceholders subs given count left cs ≠ .error (.malformed fault) := by
  induction cs using placeholder_induction generalizing count left with
  | nil =>
      rw [replacePlaceholders_nil]
      intro h
      split at h <;> cases h
  | name cs hname ih =>
      rw [replacePlaceholders_name _ _ _ hname]
      exact filled_ne_malformed QueryError.noConfusion (ih _ _)
  | position cs ih =>
      rw [replacePlaceholders_position]
      exact filled_ne_malformed QueryError.noConfusion (ih _ _)
  | plain c cs hplain ih =>
      rw [replacePlaceholders_plain _ _ _ hplain]
      exact fun h => ih _ _ (map_eq_error_iff.1 h)

/-- Taking out the literals is malformed exactly if a quote is left open. -/
theorem Extraction.ofText_malformed_iff {input : String} {subs : Option Substitutions} {fault : SyntaxFault} :
    Extraction.ofText input subs = .error (.malformed fault) ↔
      ∃ quote, fault = .openQuote quote ∧ LeavesOpen quote input.toList := by
  constructor
  · intro h
    rcases bind_eq_error_iff.1 h with hquoted | ⟨⟨quoted, literals⟩, -, h⟩
    · obtain ⟨quote, herr, hopen⟩ := exists_leavesOpen hquoted
      exact ⟨quote, QueryError.malformed.inj herr, hopen⟩
    · rcases bind_eq_error_iff.1 h with hfilled | ⟨p, -, hpure⟩
      · exact absurd hfilled (replacePlaceholders_ne_malformed _ _ _ _ _ _)
      · cases hpure
  · rintro ⟨quote, rfl, hopen⟩
    rw [ofText, replaceQuoted_of_leavesOpen hopen]
    rfl

end Open

/-! ### Texts in quotes -/

/-- A text in quotes, and the text behind it up to the next. -/
structure Quotation where
  quote : Char
  isQuote_quote : isQuote quote
  content : String
  after : List Char
  plain_after : ∀ c ∈ after, Plain c

namespace Quotation

/-- The text in quotes, with a backslash before each backslash and each of its quotes. -/
def chars (q : Quotation) : List Char :=
  q.quote :: (escaped q.quote q.content.toList ++ q.quote :: q.after)

/-- The text with a label for each of the texts in quotes, the first of which has this number. -/
def labelled (number : Nat) (qs : List Quotation) : List Char :=
  (qs.zipIdx number).flatMap fun q => label q.2 ++ q.1.after

def value (q : Quotation) : Value := .text q.content

theorem labelled_cons (number : Nat) (q : Quotation) (qs : List Quotation) :
    labelled number (q :: qs) = label number ++ (q.after ++ labelled (number + 1) qs) := by
  rw [labelled, List.zipIdx_cons, List.flatMap_cons, List.append_assoc]
  rfl

theorem replaceQuoted_chars (count : Nat) (qs : List Quotation) :
    replaceQuoted count (qs.flatMap chars) = .ok (labelled (count + 1) qs, qs.map value) := by
  induction qs generalizing count with
  | nil => exact replaceQuoted_nil count
  | cons q qs ih =>
      have htext : (q :: qs).flatMap chars =
          q.quote :: (escaped q.quote q.content.toList ++ q.quote :: (q.after ++ qs.flatMap chars)) := by
        rw [List.flatMap_cons, chars, List.cons_append, List.append_assoc, List.cons_append]
      have htake := takeQuoted_escaped q.isQuote_quote q.content.toList (q.after ++ qs.flatMap chars)
      have hafter : ∀ c ∈ q.after, isQuote c = false := fun c hc => (q.plain_after c hc).1
      rw [htext, replaceQuoted_quote q.isQuote_quote htake, replaceQuoted_of_plain hafter, ih, labelled_cons,
        String.ofList_toList]
      rfl

theorem plain_labelled (number : Nat) (qs : List Quotation) : ∀ c ∈ labelled number qs, Plain c := by
  induction qs generalizing number with
  | nil => exact fun c hc => absurd hc List.not_mem_nil
  | cons q qs ih =>
      intro c hc
      rw [labelled_cons, List.mem_append, List.mem_append] at hc
      rcases hc with hc | hc | hc
      · exact plain_of_isWordChar ((isWord_label number).all c hc)
      · exact q.plain_after c hc
      · exact ih _ c hc

end Quotation

theorem replacePlaceholders_plain_text {w : List Char} (h : ∀ c ∈ w, Plain c) (subs : Option Substitutions)
    (given count : Nat) : replacePlaceholders subs given count [] w = .ok (w, []) := by
  have hplain := replacePlaceholders_of_plain h subs given count [] []
  rw [List.append_nil, replacePlaceholders_nil] at hplain
  rw [hplain, List.isEmpty_nil, if_pos rfl]
  exact congrArg (fun text => Except.ok (text, [])) (List.append_nil w)

theorem Quotation.ofText_chars {front : List Char} (hfront : ∀ c ∈ front, Plain c) (qs : List Quotation)
    {subs : Option Substitutions} (hsubs : Substitutions.positions subs = []) :
    Extraction.ofText (String.ofList (front ++ qs.flatMap chars)) subs =
      .ok ⟨front ++ labelled 1 qs, qs.map value⟩ := by
  have hplain : ∀ c ∈ front ++ labelled 1 qs, Plain c := fun c hc =>
    (List.mem_append.1 hc).elim (hfront c) (plain_labelled 1 qs c)
  have hquoted : replaceQuoted 0 (front ++ qs.flatMap chars) = .ok (front ++ labelled 1 qs, qs.map value) := by
    rw [replaceQuoted_of_plain fun c hc => (hfront c hc).1, replaceQuoted_chars]
    rfl
  rw [Extraction.ofText, String.toList_ofList, hquoted, ok_bind]
  dsimp only
  rw [hsubs, replacePlaceholders_plain_text hplain, ok_bind, List.append_nil]
  rfl

/-- **Quoted text survives the extraction.** The texts in quotes leave their labels behind, however they are
quoted and whatever they contain; the labels stand for these texts, in their order, and no other word stands
for anything. The extraction is malformed exactly if a quote is left open. -/
theorem Extraction.quoted_text_survives :
    (∀ (front : List Char) (qs : List Quotation) (named : Option (Dict Value)), (∀ c ∈ front, Plain c) →
      ∃ e, Extraction.ofText (String.ofList (front ++ qs.flatMap Quotation.chars)) (named.map .named) = .ok e ∧
        e.text = front ++ Quotation.labelled 1 qs ∧
        (∀ i q, qs[i]? = some q → e.resolve? (String.ofList (label (i + 1))) = some (.text q.content)) ∧
        ∀ word, (∀ i < qs.length, word.toList ≠ label (i + 1)) → e.resolve? word = none) ∧
    ∀ (input : String) (subs : Option Substitutions) (fault : SyntaxFault),
      Extraction.ofText input subs = .error (.malformed fault) ↔
        ∃ quote, fault = .openQuote quote ∧ LeavesOpen quote input.toList := by
  refine ⟨fun front qs named hfront => ?_, fun _ _ _ => ofText_malformed_iff⟩
  have hsubs : Substitutions.positions (named.map .named) = [] := by cases named <;> rfl
  refine ⟨_, Quotation.ofText_chars hfront qs hsubs, rfl, ?_, ?_⟩
  · intro i q hq
    exact resolve?_label (by rw [List.getElem?_map, hq]; rfl)
  · intro word hword
    rw [Option.eq_none_iff_forall_ne_some]
    intro v hv
    obtain ⟨k, hk, heq⟩ := exists_of_resolve? hv
    have hlt : k < qs.length := by
      have hlength := (List.getElem?_eq_some_iff.1 hk).1
      rwa [List.length_map] at hlength
    exact hword k hlt heq

/-- The marks of placeholders, and quotes and backslashes, in quoted texts. -/
theorem Extraction.quoted_text_survives_marks :
    let marks : Quotation := ⟨'\'', rfl, "it's ? :id \\", " OR b=".toList, by simp [Plain, isQuote]⟩
    let empty : Quotation := ⟨'"', rfl, "", [], by simp⟩
    let input := String.ofList ("a=".toList ++ [marks, empty].flatMap Quotation.chars)
    input = "a='it\\'s ? :id \\\\' OR b=\"\"" ∧ (∀ c ∈ "a=".toList, Plain c) ∧
      ∃ e, Extraction.ofText input none = .ok e ∧ String.ofList e.text = "a=_LIT1_ OR b=_LIT2_" ∧
        e.resolve? "_LIT1_" = some (.text "it's ? :id \\") ∧ e.resolve? "id" = none := by
  intro marks empty input
  have hfront : ∀ c ∈ "a=".toList, Plain c := by simp [Plain, isQuote]
  have hword : ∀ i < 2, "id".toList ≠ label (i + 1) := by decide +kernel
  have hlabel : String.ofList (label 1) = "_LIT1_" := by decide +kernel
  obtain ⟨e, he, htext, hlabels, hothers⟩ := quoted_text_survives.1 "a=".toList [marks, empty] none hfront
  refine ⟨by decide +kernel, hfront, e, he, ?_, ?_, hothers "id" hword⟩
  · rw [htext]
    decide +kernel
  · rw [← hlabel]
    exact hlabels 0 marks rfl

end TableQuery
