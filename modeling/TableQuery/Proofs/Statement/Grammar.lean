import TableQuery.Proofs.Statement.Recovery

/-! The grammar of commands. A form with scalars in its places is the tree of a derivation, and the
tokens of its symbols are the leaves. The tokens of a part of a command, with others behind them that
do not go on with the part, tell the part and where it ends, so no command has two derivations. -/

namespace TableQuery

variable {α : Type}

def Symbol.token : Symbol Scalar → Token
  | .sign t => t
  | .value x => x.token

/-- The tokens of some symbols. -/
def tokensOf (symbols : List (Symbol Scalar)) : List Token := symbols.map Symbol.token

theorem tokensOf_append (a b : List (Symbol Scalar)) : tokensOf (a ++ b) = tokensOf a ++ tokensOf b :=
  List.map_append

theorem tokensOf_cons (x : Symbol Scalar) (a : List (Symbol Scalar)) :
    tokensOf (x :: a) = x.token :: tokensOf a := rfl

theorem leads_stands_iff {symbols : List (Symbol Scalar)} {ts rest : List Token} :
    Leads Scalar.Stands symbols ts rest ↔ ts = tokensOf symbols ++ rest := by
  constructor
  · intro h
    induction h with
    | nil => rfl
    | sign _ ih => rw [ih, tokensOf_cons, List.cons_append, Symbol.token]
    | value hv _ ih =>
        rw [ih, tokensOf_cons, List.cons_append, Symbol.token]
        exact congrArg (· :: _) hv.symm
  · intro h
    subst h
    induction symbols with
    | nil => exact .nil
    | cons x symbols ih =>
        cases x with
        | sign t => exact .sign ih
        | value v => exact .value rfl ih

theorem Scalar.token_injective : Function.Injective Scalar.token := by
  intro x y h
  cases x <;> cases y <;> cases h <;> rfl

/-! ### Entries -/

/-- The tokens of an entry tell the entry and where it ends, whatever follows. -/
def Telling (entry : α → List (Symbol Scalar)) : Prop :=
  ∀ ⦃a a' : α⦄ ⦃r r' : List Token⦄,
    tokensOf (entry a) ++ r = tokensOf (entry a') ++ r' → a = a' ∧ r = r'

theorem telling_nameSymbols : Telling nameSymbols := by
  intro a a' r r' h
  cases h
  exact ⟨rfl, rfl⟩

theorem telling_valueSymbols : Telling valueSymbols := by
  intro a a' r r' h
  obtain ⟨htoken, hrest⟩ := List.cons.inj h
  exact ⟨Scalar.token_injective htoken, hrest⟩

theorem telling_assignmentSymbols : Telling assignmentSymbols := by
  rintro ⟨field, x⟩ ⟨field', x'⟩ r r' h
  obtain ⟨hfield, h⟩ := List.cons.inj h
  obtain ⟨-, h⟩ := List.cons.inj h
  obtain ⟨htoken, hrest⟩ := List.cons.inj h
  cases hfield
  cases Scalar.token_injective htoken
  exact ⟨rfl, hrest⟩

theorem telling_pieceSymbols : Telling Piece.symbols := by
  intro p p' r r' h
  cases p with
  | leaf c =>
      cases p' with
      | leaf c' =>
          obtain ⟨field, op, x⟩ := c
          obtain ⟨field', op', x'⟩ := c'
          obtain ⟨hfield, h⟩ := List.cons.inj h
          obtain ⟨hop, h⟩ := List.cons.inj h
          obtain ⟨htoken, hrest⟩ := List.cons.inj h
          cases hfield
          cases hop
          cases Scalar.token_injective htoken
          exact ⟨rfl, hrest⟩
      | joiner j => cases j <;> cases h
      | openGroup => cases h
      | closeGroup => cases h
  | joiner j =>
      cases p' with
      | leaf c => cases j <;> cases h
      | joiner j' =>
          cases j <;> cases j' <;> cases h
          all_goals exact ⟨rfl, rfl⟩
      | openGroup => cases j <;> cases h
      | closeGroup => cases j <;> cases h
  | openGroup =>
      cases p' with
      | openGroup =>
          cases h
          exact ⟨rfl, rfl⟩
      | joiner j => cases j <;> cases h
      | _ => cases h
  | closeGroup =>
      cases p' with
      | closeGroup =>
          cases h
          exact ⟨rfl, rfl⟩
      | joiner j => cases j <;> cases h
      | _ => cases h

open Statement (current)

/-- Entries that all begin with one class of tokens are told up to the first token that is not of the
class. -/
theorem Telling.flatMap {entry : α → List (Symbol Scalar)} (h : Telling entry) {p : Token → Prop}
    (hfirst : ∀ a, ∃ t ts, tokensOf (entry a) = t :: ts ∧ p t) {as bs : List α} {r r' : List Token}
    (hr : ¬ p (current r)) (hr' : ¬ p (current r'))
    (heq : tokensOf (as.flatMap entry) ++ r = tokensOf (bs.flatMap entry) ++ r') :
    as = bs ∧ r = r' := by
  induction as generalizing bs with
  | nil =>
      cases bs with
      | nil => exact ⟨rfl, heq⟩
      | cons b bs =>
          obtain ⟨t, ts, hentry, ht⟩ := hfirst b
          rw [List.flatMap_cons, tokensOf_append, hentry] at heq
          have hcurrent : current r = t := congrArg current heq
          exact absurd (hcurrent ▸ ht) hr
  | cons a as ih =>
      cases bs with
      | nil =>
          obtain ⟨t, ts, hentry, ht⟩ := hfirst a
          rw [List.flatMap_cons, tokensOf_append, hentry] at heq
          have hcurrent : current r' = t := (congrArg current heq).symm
          exact absurd (hcurrent ▸ ht) hr'
      | cons b bs =>
          rw [List.flatMap_cons, List.flatMap_cons, tokensOf_append, tokensOf_append, List.append_assoc,
            List.append_assoc] at heq
          obtain ⟨rfl, hothers⟩ := h heq
          obtain ⟨rfl, hrest⟩ := ih hothers
          exact ⟨rfl, hrest⟩

/-! ### The parts of a command -/

/-- A list of pairs is told by its two sides. -/
theorem Listing.ext_sides {β : Type} {l l' : Listing (α × β)} (hfst : l.map Prod.fst = l'.map Prod.fst)
    (hsnd : l.map Prod.snd = l'.map Prod.snd) : l = l' := by
  obtain ⟨first, others⟩ := l
  obtain ⟨first', others'⟩ := l'
  simp only [map, Listing.mk.injEq] at hfst hsnd
  have hothers : others = others' := by
    have hzip : others = (others'.map Prod.fst).zip (others'.map Prod.snd) :=
      List.zip_of_prod hfst.2 hsnd.2
    rw [hzip]
    exact (List.zip_of_prod rfl rfl).symm
  rw [hothers, Prod.ext hfst.1 hsnd.1]

/-- A list is told where no comma follows. -/
theorem Listing.tokens_inj {entry : α → List (Symbol Scalar)} (h : Telling entry) {l l' : Listing α}
    {r r' : List Token} (hr : current r ≠ .comma) (hr' : current r' ≠ .comma)
    (heq : tokensOf (l.symbols entry) ++ r = tokensOf (l'.symbols entry) ++ r') : l = l' ∧ r = r' := by
  obtain ⟨first, others⟩ := l
  obtain ⟨first', others'⟩ := l'
  have hcomma : Telling fun a => .sign .comma :: entry a := fun a a' r r' heq =>
    h (List.cons.inj heq).2
  rw [symbols, symbols, tokensOf_append, tokensOf_append, List.append_assoc, List.append_assoc] at heq
  obtain ⟨rfl, hothers⟩ := h heq
  obtain ⟨rfl, hrest⟩ := hcomma.flatMap (p := (· = .comma)) (fun a => ⟨_, _, rfl, rfl⟩) hr hr' hothers
  exact ⟨rfl, hrest⟩

/-- A path is told where no point follows. -/
theorem TablePath.tokens_inj {p p' : TablePath} {r r' : List Token} (hr : current r ≠ .dot)
    (hr' : current r' ≠ .dot) (heq : tokensOf p.symbols ++ r = tokensOf p'.symbols ++ r') :
    p = p' ∧ r = r' := by
  obtain ⟨datastore, table⟩ := p
  obtain ⟨datastore', table'⟩ := p'
  cases datastore with
  | none =>
      cases datastore' with
      | none =>
          cases heq
          exact ⟨rfl, rfl⟩
      | some datastore' => exact absurd (congrArg current (List.cons.inj heq).2) hr
  | some datastore =>
      cases datastore' with
      | none => exact absurd (congrArg current (List.cons.inj heq).2).symm hr'
      | some datastore' =>
          cases heq
          exact ⟨rfl, rfl⟩

/-- What follows a part of a command belongs to a later part or ends the command. -/
def Follows (depth : Nat) (r : List Token) : Prop := (current r).depth ≤ depth

theorem Follows.ne {depth : Nat} {r : List Token} (h : Follows depth r) (hdepth : depth ≤ 3) {t : Token}
    (ht : t.depth = 4) : current r ≠ t := by
  intro heq
  rw [Follows, heq] at h
  omega

theorem Follows.mono {m n : Nat} {r : List Token} (h : Follows m r) (hmn : m ≤ n) : Follows n r :=
  Nat.le_trans h hmn

theorem follows_limit (limit : Option Scalar) {r : List Token} (h : Follows 1 r) :
    Follows 1 (tokensOf (limitSymbols limit) ++ r) :=
  Statement.depth_of_limit (leads_stands_iff.2 rfl) h

theorem follows_order (order : Option WrittenOrder) {r : List Token} (h : Follows 2 r) :
    Follows 2 (tokensOf (orderSymbols (ν := Scalar) order) ++ r) :=
  Statement.depth_of_order (leads_stands_iff.2 rfl) h

theorem follows_condition (condition : Option (Chain (Comparison Scalar))) {r : List Token}
    (h : Follows 3 r) : Follows 3 (tokensOf (conditionSymbols condition) ++ r) :=
  Statement.depth_of_condition (leads_stands_iff.2 rfl) h

/-- A part that begins with a token of its own, or is missing. -/
theorem tokens_option_inj {part : Option α → List (Symbol Scalar)} {t : Token} {depth : Nat}
    (hnone : part none = []) (hsome : ∀ a, ∃ rest, part (some a) = .sign t :: rest)
    (ht : depth < t.depth) {r r' : List Token} (hr : Follows depth r) (hr' : Follows depth r')
    (hinj : ∀ a a', tokensOf (part (some a)) ++ r = tokensOf (part (some a')) ++ r' → a = a' ∧ r = r')
    {x y : Option α} (heq : tokensOf (part x) ++ r = tokensOf (part y) ++ r') : x = y ∧ r = r' := by
  have hstart : ∀ a s, current (tokensOf (part (some a)) ++ s) = t := by
    intro a s
    obtain ⟨rest, hrest⟩ := hsome a
    rw [hrest]
    rfl
  cases x with
  | none =>
      cases y with
      | none =>
          rw [hnone] at heq
          exact ⟨rfl, heq⟩
      | some b =>
          rw [hnone] at heq
          have hcurrent : current r = t := (congrArg current heq).trans (hstart b r')
          rw [Follows, hcurrent] at hr
          omega
  | some a =>
      cases y with
      | none =>
          rw [hnone] at heq
          have hcurrent : current r' = t := (congrArg current heq).symm.trans (hstart a r)
          rw [Follows, hcurrent] at hr'
          omega
      | some b =>
          obtain ⟨rfl, hrest⟩ := hinj a b heq
          exact ⟨rfl, hrest⟩

section Parts

variable {r r' : List Token}

theorem condition_tokens_inj {c c' : Option (Chain (Comparison Scalar))} (hr : Follows 2 r)
    (hr' : Follows 2 r') (heq : tokensOf (conditionSymbols c) ++ r = tokensOf (conditionSymbols c') ++ r') :
    c = c' ∧ r = r' := by
  refine tokens_option_inj (t := .keyword .whereRows) rfl (fun c => ⟨_, rfl⟩) (by decide) hr hr' ?_ heq
  intro c c' heq
  -- No piece of a chain begins with a token that can follow the condition.
  have hfirst : ∀ p : Piece (Comparison Scalar), ∃ t ts, tokensOf p.symbols = t :: ts ∧ 2 < t.depth := by
    intro p
    cases p with
    | joiner j => cases j <;> exact ⟨_, _, rfl, by decide⟩
    | _ => exact ⟨_, _, rfl, by simp [Token.depth, Symbol.token]⟩
  obtain ⟨hpieces, hrest⟩ := telling_pieceSymbols.flatMap (p := fun t => 2 < t.depth) hfirst
    (Nat.not_lt.2 hr) (Nat.not_lt.2 hr') (List.cons.inj heq).2
  exact ⟨Chain.pieces_injective hpieces, hrest⟩

theorem direction_tokens_inj {d d' : Option Direction} (hr : Follows 1 r) (hr' : Follows 1 r')
    (heq : tokensOf (directionSymbols d) ++ r = tokensOf (directionSymbols d') ++ r') :
    d = d' ∧ r = r' := by
  have hne : ∀ k : Keyword, (Token.keyword k).depth = 4 → ∀ s s' : List Token, Follows 1 s →
      s ≠ .keyword k :: s' := by
    intro k hk s s' hs heq
    exact hs.ne (by omega) hk (congrArg current heq)
  rcases d with _ | _ | _ <;> rcases d' with _ | _ | _
  case none.none => exact ⟨rfl, heq⟩
  case some.ascending.some.ascending => exact ⟨rfl, (List.cons.inj heq).2⟩
  case some.descending.some.descending => exact ⟨rfl, (List.cons.inj heq).2⟩
  case none.some.ascending => exact absurd heq (hne .asc rfl _ _ hr)
  case none.some.descending => exact absurd heq (hne .desc rfl _ _ hr)
  case some.ascending.none => exact absurd heq.symm (hne .asc rfl _ _ hr')
  case some.descending.none => exact absurd heq.symm (hne .desc rfl _ _ hr')
  all_goals cases heq

theorem order_tokens_inj {o o' : Option WrittenOrder} (hr : Follows 1 r) (hr' : Follows 1 r')
    (heq : tokensOf (orderSymbols o) ++ r = tokensOf (orderSymbols o') ++ r') : o = o' ∧ r = r' := by
  refine tokens_option_inj (t := .keyword .orderBy) rfl (fun c => ⟨_, rfl⟩) (by decide) hr hr' ?_ heq
  rintro ⟨columns, d⟩ ⟨columns', d'⟩ heq
  have hcomma : ∀ (d : Option Direction) {r : List Token}, Follows 1 r →
      current (tokensOf (directionSymbols d) ++ r) ≠ .comma := by
    intro d r hr
    rcases d with _ | _ | _
    · exact hr.ne (by omega) rfl
    all_goals simp [tokensOf, directionSymbols, Symbol.token, current]
  have htokens : tokensOf (columns.symbols nameSymbols) ++ (tokensOf (directionSymbols d) ++ r) =
      tokensOf (columns'.symbols nameSymbols) ++ (tokensOf (directionSymbols d') ++ r') := by
    rw [← List.append_assoc, ← List.append_assoc, ← tokensOf_append, ← tokensOf_append]
    exact (List.cons.inj heq).2
  obtain ⟨rfl, hdirection⟩ := Listing.tokens_inj telling_nameSymbols (hcomma d hr) (hcomma d' hr') htokens
  obtain ⟨rfl, hrest⟩ := direction_tokens_inj hr hr' hdirection
  exact ⟨rfl, hrest⟩

theorem limit_tokens_inj {x x' : Option Scalar} (hr : Follows 0 r) (hr' : Follows 0 r')
    (heq : tokensOf (limitSymbols x) ++ r = tokensOf (limitSymbols x') ++ r') : x = x' ∧ r = r' := by
  refine tokens_option_inj (t := .keyword .limit) rfl (fun c => ⟨_, rfl⟩) (by decide) hr hr' ?_ heq
  intro x x' heq
  exact telling_valueSymbols (List.cons.inj heq).2

theorem columns_tokens_inj {c c' : Option (Listing String)} (hr : current r ≠ .comma)
    (hr' : current r' ≠ .comma)
    (heq : tokensOf (columnsSymbols c) ++ r = tokensOf (columnsSymbols c') ++ r') : c = c' ∧ r = r' := by
  cases c with
  | none =>
      cases c' with
      | none => exact ⟨rfl, (List.cons.inj heq).2⟩
      | some columns => cases heq
  | some columns =>
      cases c' with
      | none => cases heq
      | some columns' =>
          obtain ⟨rfl, hrest⟩ := Listing.tokens_inj telling_nameSymbols hr hr' heq
          exact ⟨rfl, hrest⟩

end Parts

/-! ### Commands -/

namespace Form

/-- The tokens of a command. -/
def tokens (form : Form Scalar) : List Token := tokensOf form.symbols

variable {r r' : List Token}

theorem select_tokens_inj {columns columns' : Option (Listing String)} {table table' : TablePath}
    {condition condition' : Option (Chain (Comparison Scalar))} {order order' : Option WrittenOrder}
    {limit limit' : Option Scalar} (hr : Follows 0 r) (hr' : Follows 0 r')
    (heq : (select columns table condition order limit).tokens ++ r =
      (select columns' table' condition' order' limit').tokens ++ r') :
    select columns table condition order limit = select columns' table' condition' order' limit' ∧
      r = r' := by
  simp only [tokens, symbols, tokensOf_append, tokensOf_cons, List.append_assoc, List.cons_append,
    Symbol.token, List.cons.injEq, true_and] at heq
  have hlimit := fun x {r : List Token} (hr : Follows 0 r) => follows_limit x (hr.mono (Nat.zero_le 1))
  have horder := fun o {r : List Token} (hr : Follows 1 r) => follows_order o (hr.mono (Nat.le_succ 1))
  have hcondition := fun c {r : List Token} (hr : Follows 2 r) =>
    follows_condition c (hr.mono (Nat.le_succ 2))
  have hdot := fun c o x {r : List Token} (hr : Follows 0 r) =>
    Follows.ne (hcondition c (horder o (hlimit x hr))) (Nat.le_refl 3) (t := .dot) rfl
  obtain ⟨rfl, hfrom⟩ := columns_tokens_inj (by simp [current]) (by simp [current]) heq
  obtain ⟨rfl, hcond⟩ := TablePath.tokens_inj (hdot _ _ _ hr) (hdot _ _ _ hr') (List.cons.inj hfrom).2
  obtain ⟨rfl, hord⟩ := condition_tokens_inj (horder _ (hlimit _ hr)) (horder _ (hlimit _ hr')) hcond
  obtain ⟨rfl, hlim⟩ := order_tokens_inj (hlimit _ hr) (hlimit _ hr') hord
  obtain ⟨rfl, hrest⟩ := limit_tokens_inj hr hr' hlim
  exact ⟨rfl, hrest⟩

theorem insert_tokens_inj {table table' : TablePath} {entries entries' : Listing (String × Scalar)}
    (heq : (insert table entries).tokens ++ r = (insert table' entries').tokens ++ r') :
    insert table entries = insert table' entries' ∧ r = r' := by
  simp only [tokens, symbols, tokensOf_append, tokensOf_cons, List.append_assoc, List.cons_append,
    Symbol.token, List.cons.injEq, true_and] at heq
  obtain ⟨rfl, hopen⟩ := TablePath.tokens_inj (by simp [current]) (by simp [current]) heq
  obtain ⟨hnames, hwords⟩ := Listing.tokens_inj telling_nameSymbols (by simp [current])
    (by simp [current]) (List.cons.inj hopen).2
  simp only [List.cons.injEq, true_and] at hwords
  obtain ⟨hvalues, hclose⟩ := Listing.tokens_inj telling_valueSymbols (by simp [current])
    (by simp [current]) hwords
  rw [Listing.ext_sides hnames hvalues]
  exact ⟨rfl, (List.cons.inj hclose).2⟩

theorem update_tokens_inj {table table' : TablePath} {assignments assignments' : Listing (String × Scalar)}
    {condition condition' : Option (Chain (Comparison Scalar))} (hr : Follows 0 r) (hr' : Follows 0 r')
    (heq : (update table assignments condition).tokens ++ r =
      (update table' assignments' condition').tokens ++ r') :
    update table assignments condition = update table' assignments' condition' ∧ r = r' := by
  simp only [tokens, symbols, tokensOf_append, tokensOf_cons, List.append_assoc, List.cons_append,
    Symbol.token, List.cons.injEq, true_and] at heq
  have hcomma := fun c {r : List Token} (hr : Follows 0 r) =>
    Follows.ne (follows_condition c (hr.mono (Nat.zero_le 3))) (Nat.le_refl 3) (t := .comma) rfl
  obtain ⟨rfl, hset⟩ := TablePath.tokens_inj (by simp [current]) (by simp [current]) heq
  obtain ⟨rfl, hcond⟩ := Listing.tokens_inj telling_assignmentSymbols (hcomma _ hr) (hcomma _ hr')
    (List.cons.inj hset).2
  obtain ⟨rfl, hrest⟩ := condition_tokens_inj (hr.mono (Nat.zero_le 2)) (hr'.mono (Nat.zero_le 2)) hcond
  exact ⟨rfl, hrest⟩

theorem delete_tokens_inj {table table' : TablePath}
    {condition condition' : Option (Chain (Comparison Scalar))} (hr : Follows 0 r) (hr' : Follows 0 r')
    (heq : (delete table condition).tokens ++ r = (delete table' condition').tokens ++ r') :
    delete table condition = delete table' condition' ∧ r = r' := by
  simp only [tokens, symbols, tokensOf_append, tokensOf_cons, List.append_assoc, List.cons_append,
    Symbol.token, List.cons.injEq, true_and] at heq
  have hdot := fun c {r : List Token} (hr : Follows 0 r) =>
    Follows.ne (follows_condition c (hr.mono (Nat.zero_le 3))) (Nat.le_refl 3) (t := .dot) rfl
  obtain ⟨rfl, hcond⟩ := TablePath.tokens_inj (hdot _ hr) (hdot _ hr') heq
  obtain ⟨rfl, hrest⟩ := condition_tokens_inj (hr.mono (Nat.zero_le 2)) (hr'.mono (Nat.zero_le 2)) hcond
  exact ⟨rfl, hrest⟩

/-- **The tokens of a command tell its form and where the command ends.** -/
theorem tokens_inj {form form' : Form Scalar} (hr : Follows 0 r) (hr' : Follows 0 r')
    (heq : form.tokens ++ r = form'.tokens ++ r') : form = form' ∧ r = r' := by
  cases form with
  | select columns table condition order limit =>
      cases form' with
      | select => exact select_tokens_inj hr hr' heq
      | _ => cases heq
  | insert table entries =>
      cases form' with
      | insert => exact insert_tokens_inj heq
      | _ => cases heq
  | update table assignments condition =>
      cases form' with
      | update => exact update_tokens_inj hr hr' heq
      | _ => cases heq
  | delete table condition =>
      cases form' with
      | delete => exact delete_tokens_inj hr hr' heq
      | _ => cases heq

end Form
end TableQuery
