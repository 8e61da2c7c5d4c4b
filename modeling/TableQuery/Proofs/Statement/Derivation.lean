import TableQuery.Proofs.Number.Rounding
import TableQuery.Proofs.Statement.Fault
import TableQuery.Proofs.Statement.Grammar
import TableQuery.Proofs.Statement.Lookahead
import TableQuery.Proofs.Token.Beginning

/-! The derivations of token lists. Every list of tokens that the lexer gives has one end, which is
its last token. The reader accepts such a list exactly if it is derived in the grammar and the value of
its limit is a number of rows, and then reads the statement of the one derivation. -/

namespace TableQuery

variable {e : Extraction} {ts : List Token}

/-! ### The end of a token list -/

/-- The tokens have one end, which is the last of them. -/
def Token.EndsOnce (ts : List Token) : Prop := ∃ body, ts = body ++ [.eof] ∧ .eof ∉ body

/-- Nothing stands behind an end. -/
theorem Token.EndsOnce.eq_nil {a rest : List Token} (h : EndsOnce (a ++ .eof :: rest)) : rest = [] := by
  obtain ⟨body, heq, hbody⟩ := h
  rcases List.eq_nil_or_concat rest with hnil | ⟨others, t, rfl⟩
  · exact hnil
  · rw [List.concat_eq_append, ← List.cons_append, ← List.append_assoc] at heq
    have hbodyEq := (List.append_inj' heq rfl).1
    exact absurd (by simp [← hbodyEq]) hbody

theorem Token.ofChar?_ne_eof (c : Char) : ofChar? c ≠ some .eof := by
  unfold ofChar?
  split <;> simp

theorem Token.takeNumber_ne_eof {negative : Bool} {cs rest : List Char} :
    takeNumber negative cs ≠ .ok (.eof, rest) := by
  intro h
  rcases takeNumber_token h with ⟨n, hn⟩ | ⟨x, hx⟩
  · cases hn
  · cases hx

theorem Token.takeWord_ne_eof {cs rest : List Char} : takeWord cs ≠ (.eof, rest) := by
  intro h
  rcases takeWord_cases h with ⟨hident, -⟩ | ⟨k, hk, -⟩ | ⟨k, second, hk, -⟩
  · cases hident
  · cases hk
  · cases hk

theorem Token.take_ne_eof {c : Char} {cs rest : List Char} : take c cs ≠ .ok (.eof, rest) := by
  intro h
  cases beginning c cs with
  | word hword =>
      rw [take_of_isWordStart hword] at h
      exact takeWord_ne_eof (Except.ok.inj h)
  | mark _ hmark =>
      rw [take_mark hmark] at h
      cases h
      exact ofChar?_ne_eof c hmark
  | operator _ hmark hop =>
      rw [take_operator hmark hop] at h
      split at h <;> cases h
  | number _ hdigit =>
      rw [take_digit hdigit] at h
      exact takeNumber_ne_eof h
  | negative hdigit =>
      rw [take_minus hdigit] at h
      exact takeNumber_ne_eof h
  | unsupported hword hmark hop hminus hdigit =>
      rw [take_unsupported hmark hop hminus hdigit hword] at h
      cases h

theorem Token.scan_endsOnce {cs : List Char} (h : scan cs = .ok ts) : EndsOnce ts := by
  fun_induction scan cs generalizing ts with
  | case1 =>
      cases h
      exact ⟨[], rfl, by simp⟩
  | case2 c cs hblank ih => exact ih h
  | case3 c cs hblank err htake => cases h
  | case4 c cs hblank t rest htake hlength ih =>
      obtain ⟨others, hothers, h⟩ := bind_eq_ok_iff.1 h
      cases h
      obtain ⟨body, rfl, hbody⟩ := ih hothers
      refine ⟨t :: body, rfl, ?_⟩
      rw [List.mem_cons, not_or]
      refine ⟨?_, hbody⟩
      rintro rfl
      exact take_ne_eof htake

/-! ### Numbers of rows -/

/-- The value is read as a finite number that is not negative. -/
def Value.IsCount (v : Value) : Prop := v.toNumber.isFinite = true ∧ 0 ≤ v.toNumber.key

theorem Value.isCount_int_iff {n : Int64} : (Value.int n).IsCount ↔ 0 ≤ n.toInt := by
  have hn : n.toInt.natAbs ≤ 2 ^ 64 := by
    have hlow := n.le_toInt
    have hhigh := n.toInt_lt
    omega
  rw [IsCount, toNumber, Binary64.isFinite_ofInt hn, Binary64.key_ofInt_nonneg_iff hn, and_iff_right rfl]

theorem Statement.limit?_isSome_iff (v : Value) : (limit? v).isSome ↔ v.IsCount := by
  cases v with
  | int n =>
      rw [Value.isCount_int_iff, limit?]
      split <;> simp_all
  | _ => simp [limit?, Value.IsCount]

/-! ### Derivations -/

/-- What stands behind `LIMIT`. -/
def Form.limit? {ν : Type} : Form ν → Option ν
  | .select _ _ _ _ limit => limit
  | _ => none

theorem Symbol.eof_not_mem_listing {α : Type} {entry : α → List (Symbol Scalar)}
    (h : ∀ a, .sign .eof ∉ entry a) (l : Listing α) : .sign .eof ∉ l.symbols entry := by
  simp [Listing.symbols, h]

theorem Symbol.eof_not_mem_condition (condition : Option (Chain (Comparison Scalar))) :
    .sign .eof ∉ conditionSymbols condition := by
  have hpiece : ∀ p : Piece (Comparison Scalar), .sign .eof ∉ p.symbols := by
    intro p
    cases p with
    | joiner j => cases j <;> simp [Piece.symbols]
    | _ => simp [Piece.symbols, Comparison.symbols]
  cases condition <;> simp [conditionSymbols, hpiece]

theorem Form.eof_not_mem_symbols (form : Form Scalar) : .sign .eof ∉ form.symbols := by
  have hpath : ∀ p : TablePath, (.sign .eof : Symbol Scalar) ∉ p.symbols := by
    rintro ⟨_ | datastore, table⟩ <;> simp [TablePath.symbols]
  have hnames : ∀ l : Listing String, (.sign .eof : Symbol Scalar) ∉ l.symbols nameSymbols :=
    Symbol.eof_not_mem_listing (by simp [nameSymbols])
  cases form with
  | select columns table condition order limit =>
      have horder : (.sign .eof : Symbol Scalar) ∉ orderSymbols order := by
        rcases order with _ | ⟨columns, _ | _ | _⟩ <;> simp [orderSymbols, directionSymbols, hnames]
      have hlimit : .sign .eof ∉ limitSymbols limit := by cases limit <;> simp [limitSymbols]
      have hcolumns : (.sign .eof : Symbol Scalar) ∉ columnsSymbols columns := by
        cases columns <;> simp [columnsSymbols, hnames]
      simp [symbols, hcolumns, hpath, Symbol.eof_not_mem_condition, horder, hlimit]
  | insert table entries =>
      have hvalues : ∀ l : Listing Scalar, .sign .eof ∉ l.symbols valueSymbols :=
        Symbol.eof_not_mem_listing (by simp [valueSymbols])
      simp [symbols, hpath, hnames, hvalues]
  | update table assignments condition =>
      have hassignments : ∀ l : Listing (String × Scalar), .sign .eof ∉ l.symbols assignmentSymbols :=
        Symbol.eof_not_mem_listing (by simp [assignmentSymbols])
      simp [symbols, hpath, hassignments, Symbol.eof_not_mem_condition]
  | delete table condition => simp [symbols, hpath, Symbol.eof_not_mem_condition]

theorem Form.eof_not_mem_tokens (form : Form Scalar) : .eof ∉ form.tokens := by
  intro h
  obtain ⟨x, hx, htoken⟩ := List.mem_map.1 h
  cases x with
  | sign t => exact form.eof_not_mem_symbols ((show t = .eof from htoken) ▸ hx)
  | value v => cases v <;> cases htoken

/-- A derivation of a whole command: its form and whether a semicolon ends it. -/
structure Derivation where
  form : Form Scalar
  semicolon : Bool

namespace Derivation

/-- The tokens behind the form. -/
def ending (d : Derivation) : List Token := if d.semicolon then [.semicolon, .eof] else [.eof]

/-- The tokens that are derived. -/
def tokens (d : Derivation) : List Token := d.form.tokens ++ d.ending

/-- The statement that the derivation stands for. -/
def statement (e : Extraction) (d : Derivation) : Except QueryError Statement :=
  (d.form.map (Scalar.value e)).statement

/-- A limit, where there is one, is a number of rows. -/
def LimitCounts (e : Extraction) (d : Derivation) : Prop :=
  ∀ x, d.form.limit? = some x → (x.value e).IsCount

theorem follows_ending (d : Derivation) : Follows 0 d.ending := by
  unfold ending
  cases d.semicolon <;> exact Nat.le_refl 0

theorem ends_ending (d : Derivation) : Statement.Ends d.ending := by
  unfold ending
  cases d.semicolon with
  | true => exact Or.inr ⟨rfl, rfl⟩
  | false => exact Or.inl rfl

theorem tokens_injective : Function.Injective tokens := by
  intro d d' h
  obtain ⟨hform, hending⟩ := Form.tokens_inj d.follows_ending d'.follows_ending h
  obtain ⟨form, semicolon⟩ := d
  obtain ⟨form', semicolon'⟩ := d'
  cases hform
  cases semicolon <;> cases semicolon' <;> first | rfl | cases hending

theorem ofTokens_tokens (d : Derivation) : Statement.ofTokens e d.tokens = d.statement e :=
  Statement.ofTokens_of_stands (leads_stands_iff.2 rfl) d.ends_ending

/-- The limit is all that can be refused of a derivation. -/
theorem exists_statement_iff (d : Derivation) : (∃ s, d.statement e = .ok s) ↔ d.LimitCounts e := by
  obtain ⟨form, semicolon⟩ := d
  cases form with
  | select columns table condition order limit =>
      cases limit with
      | none => simp [statement, LimitCounts, Form.limit?, Form.map, Form.statement, readLimit, Except.map]
      | some x =>
          simp only [statement, LimitCounts, Form.limit?, Form.map, Form.statement, Option.map_some,
            readLimit, Option.some.injEq, forall_eq', ← Statement.limit?_isSome_iff]
          cases Statement.limit? (x.value e) <;> simp [Except.map, Statement.fail]
  | _ => simp [statement, LimitCounts, Form.limit?, Form.map, Form.statement]

/-- Tokens with one end that are read as a statement are derived. -/
theorem exists_of_ofTokens {s : Statement} (hends : Token.EndsOnce ts)
    (h : Statement.ofTokens e ts = .ok s) : ∃ d : Derivation, d.tokens = ts ∧ d.statement e = .ok s := by
  obtain ⟨form, rest, hleads, hrest, hstatement⟩ := Statement.form_of_ofTokens h
  obtain rfl := leads_stands_iff.1 hleads
  have hend : .eof ∈ rest := by
    obtain ⟨body, heq, -⟩ := hends
    have hmem : .eof ∈ tokensOf form.symbols ++ rest := by simp [heq]
    exact (List.mem_append.1 hmem).resolve_left form.eof_not_mem_tokens
  obtain ⟨t, rest, rfl, hlater⟩ := Statement.exists_cons_of_eof_mem hend
  rcases hrest with heof | ⟨hsemicolon, heof⟩
  · obtain rfl : t = .eof := heof
    obtain rfl := hends.eq_nil
    exact ⟨⟨form, false⟩, rfl, hstatement⟩
  · obtain rfl : t = .semicolon := hsemicolon
    obtain ⟨t, rest, rfl, -⟩ := Statement.exists_cons_of_eof_mem (hlater (by simp))
    obtain rfl : t = .eof := heof
    rw [List.append_cons] at hends
    obtain rfl := hends.eq_nil
    exact ⟨⟨form, true⟩, rfl, hstatement⟩

end Derivation

/-! ### The reader and the grammar -/

/-- What a token list is read as is told by its derivations. -/
structure ReadsGrammar (e : Extraction) (ts : List Token) : Prop where
  /-- A statement is read exactly if it is the statement of a derivation whose limit counts rows. -/
  accepts_iff : ∀ s, Statement.ofTokens e ts = .ok s ↔
    ∃ d : Derivation, d.tokens = ts ∧ d.LimitCounts e ∧ d.statement e = .ok s
  /-- Every derivation whose limit counts rows has a statement. -/
  stands : ∀ d : Derivation, d.tokens = ts → d.LimitCounts e → ∃ s, d.statement e = .ok s
  /-- No two derivations have these tokens. -/
  unique : ∀ d d' : Derivation, d.tokens = ts → d'.tokens = ts → d = d'
  /-- Everything else is refused for its form. -/
  refuses : (¬ ∃ d : Derivation, d.tokens = ts ∧ d.LimitCounts e) →
    ∃ fault, Statement.ofTokens e ts = .error (.malformed fault)
  /-- The reader stays among the tokens: nothing behind them is looked at. -/
  stays : ∀ beyond, Statement.ofTokens e (ts ++ beyond) = Statement.ofTokens e ts

/-- **Exactly the tokens that the grammar derives are read, each with its one derivation.** -/
theorem reads_grammar : (∀ cs ts, Token.scan cs = .ok ts → Token.EndsOnce ts) ∧
    ∀ e ts, Token.EndsOnce ts → ReadsGrammar e ts := by
  refine ⟨fun cs ts => Token.scan_endsOnce, fun e ts hends => ?_⟩
  have haccepts : ∀ s, Statement.ofTokens e ts = .ok s ↔
      ∃ d : Derivation, d.tokens = ts ∧ d.LimitCounts e ∧ d.statement e = .ok s := by
    intro s
    constructor
    · intro h
      obtain ⟨d, htokens, hstatement⟩ := Derivation.exists_of_ofTokens hends h
      exact ⟨d, htokens, d.exists_statement_iff.1 ⟨s, hstatement⟩, hstatement⟩
    · rintro ⟨d, rfl, -, hstatement⟩
      rw [d.ofTokens_tokens, hstatement]
  refine ⟨haccepts, fun d _ => d.exists_statement_iff.2, fun d d' h h' => ?_, fun hnone => ?_, ?_⟩
  · exact Derivation.tokens_injective (h.trans h'.symm)
  · cases hread : Statement.ofTokens e ts with
    | ok s =>
        obtain ⟨d, htokens, hcounts, -⟩ := (haccepts s).1 hread
        exact absurd ⟨d, htokens, hcounts⟩ hnone
    | error err =>
        obtain ⟨fault, rfl⟩ := Statement.ofTokens_fault e ts err hread
        exact ⟨fault, rfl⟩
  · intro beyond
    obtain ⟨body, rfl, -⟩ := hends
    exact Statement.ofTokens_append e (by simp) beyond

/-- The tokens of `SELECT * FROM notes LIMIT 2;`. -/
def limitedNotes : List Token :=
  [.keyword .select, .star, .keyword .fromTable, .ident "notes", .keyword .limit, .number 2, .semicolon,
    .eof]

theorem reads_grammar_limited_notes : Token.EndsOnce limitedNotes ∧ ReadsGrammar ⟨[], []⟩ limitedNotes := by
  have hscan : Token.scan "SELECT * FROM notes LIMIT 2;".toList = .ok limitedNotes := by
    cbv
  have hends := reads_grammar.1 _ _ hscan
  exact ⟨hends, reads_grammar.2 _ _ hends⟩

end TableQuery
