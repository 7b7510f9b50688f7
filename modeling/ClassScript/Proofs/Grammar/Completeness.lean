import ClassScript.Proofs.Grammar.Leaving
import ClassScript.Proofs.Grammar.Soundness

set_option autoImplicit false

/-!
# Expressions that follow the grammar are read

The other direction: tokens that derive a phrase are read as that phrase, whatever comes after them
as long as it does not go on with the phrase.  The statements say how much fuel is enough, in terms
of the number of tokens, and the fuel that the parser starts with is as much.

A repetition such as `X ( op X )*` is read in a loop that holds the tree so far.  For the rules that
make a repetition longer the statement is therefore about the point in the loop at which the tree is
held, and not about the end of the loop.
-/

namespace ClassScript.Parser

open Grammar

variable {d : Dialect}

/-! ## Levels of binary operators -/

/-- What a call could go on with. -/
def callStops : List TokenKind := [.leftParen, .dot]

/-- What an operand of a level could go on with. -/
def Level.operandStops : Level → List TokenKind
  | .factor => callStops
  | .term => Level.factor.operators ++ callStops
  | .comparison => Level.term.operators ++ Level.factor.operators ++ callStops
  | .equality =>
    Level.comparison.operators ++ Level.term.operators ++ Level.factor.operators ++ callStops
  | .and =>
    Level.equality.operators ++ Level.comparison.operators ++ Level.term.operators
      ++ Level.factor.operators ++ callStops
  | .or =>
    Level.and.operators ++ Level.equality.operators ++ Level.comparison.operators
      ++ Level.term.operators ++ Level.factor.operators ++ callStops

/-- What a binary expression of a level could go on with. -/
def Level.stops (level : Level) : List TokenKind := level.operators ++ level.operandStops

/-- An operator ends the operand before it. -/
theorem Level.operator_ends_operand {level : Level} {op : Token} (h : op.kind ∈ level.operators)
    (rest : List Token) : Stops level.operandStops (op :: rest) := by
  have apart : ∀ k ∈ level.operators, k ∉ level.operandStops := by cases level <;> decide
  exact stops_cons (apart _ h)

/-- How many calls lie between an expression and a binary expression of a level. -/
def Level.depth : Level → Nat
  | .or => 1
  | .and => 3
  | .equality => 5
  | .comparison => 7
  | .term => 9
  | .factor => 11

theorem Level.depth_tighter {level tighter : Level} (h : level.tighter? = some tighter) :
    tighter.depth = level.depth + 2 ∧ tighter.stops = level.operandStops := by
  cases level <;> simp only [Level.tighter?, Option.some.injEq, reduceCtorEq] at h <;> subst h <;>
    exact ⟨rfl, rfl⟩

/-- A step with a fuel reads the tokens as an expression, if they do not go on. -/
def ExprComplete (d : Dialect) (p : Nat → Parser Expr) (depth : Nat) (stops : List TokenKind)
    (ts : List Token) (e : Expr) : Prop :=
  ∀ fuel c rest, c.rest = ts ++ rest → 16 * ts.length ≤ fuel + depth → Stops stops rest →
    Leaves d (p fuel) c rest fun e' => e'.unnumbered = e

/-- A step that ends in a loop comes to hold the tree of the tokens in that loop: whatever the loop
does from there on, the step does. -/
def LoopComplete (d : Dialect) (p : Nat → Parser Expr) (loop : Nat → Expr → Parser Expr)
    (depth : Nat) (stops : List TokenKind) (ts : List Token) (e : Expr) : Prop :=
  ∀ fuel c rest rest' Q, c.rest = ts ++ rest → 16 * ts.length ≤ fuel + depth → Stops stops rest →
    (∀ fuel' head c', c'.rest = rest → head.unnumbered = e → fuel ≤ fuel' + ts.length →
      Leaves d (loop fuel' head) c' rest' Q) →
    Leaves d (p fuel) c rest' Q

/-- The tokens are held in the loop of a level. -/
def LevelComplete (d : Dialect) (level : Level) : List Token → Expr → Prop :=
  LoopComplete d (fun fuel => binary fuel level) (fun fuel => binaryRest fuel level) level.depth
    level.operandStops

/-- The tokens are read as an operand of a level. -/
def OperandComplete (d : Dialect) (level : Level) : List Token → Expr → Prop :=
  ExprComplete d (fun fuel => operand fuel level) (level.depth + 1) level.operandStops

/-- What is held in the loop of a level is read as an expression of the level. -/
theorem LevelComplete.expr {level : Level} {ts : List Token} {e : Expr}
    (h : LevelComplete d level ts e) (pos : 0 < ts.length) :
    ExprComplete d (fun fuel => binary fuel level) level.depth level.stops ts e := by
  intro fuel c rest hc hfuel stops
  have small : level.depth ≤ 11 := by cases level <;> decide
  refine h fuel c rest rest _ hc hfuel (stops.mono (List.subset_append_right _ _)) ?_
  intro fuel' head c' hrest he enough
  obtain ⟨f, rfl⟩ := Nat.exists_eq_add_one_of_ne_zero (by omega : fuel' ≠ 0)
  change Leaves d (binaryRest (f + 1) level head) c' rest _
  rw [Parser.binaryRest]
  refine .acceptAny?_skip ?_ (.pure hrest he)
  rw [hrest]
  exact stops.mono (List.subset_append_left _ _)

theorem LevelComplete.first {level : Level} {ts : List Token} {e : Expr}
    (h : OperandComplete d level ts e) (pos : 0 < ts.length) : LevelComplete d level ts e := by
  intro fuel c rest rest' Q hc hfuel stops go
  have small : level.depth ≤ 11 := by cases level <;> decide
  obtain ⟨f, rfl⟩ := Nat.exists_eq_add_one_of_ne_zero (by omega : fuel ≠ 0)
  change Leaves d (binary (f + 1) level) c rest' Q
  rw [Parser.binary]
  exact (h f c rest hc (by omega) stops).bind fun left c' hrest he =>
    go f left c' hrest he (by omega)

theorem LevelComplete.more {level : Level} {ts us : List Token} {op : Token} {l r : Expr}
    (hl : LevelComplete d level ts l) (hop : op.kind ∈ level.operators)
    (hr : OperandComplete d level us r) (pos : 0 < us.length) :
    LevelComplete d level (ts ++ op :: us) (level.join l op r) := by
  intro fuel c rest rest' Q hc hfuel stops go
  simp only [List.length_append, List.length_cons] at hfuel go
  have small : level.depth ≤ 11 := by cases level <;> decide
  refine hl fuel c (op :: us ++ rest) rest' Q (by simpa using hc) (by omega)
    (Level.operator_ends_operand hop _) ?_
  rintro fuel₁ left c₁ hrest₁ rfl enough
  obtain ⟨f, rfl⟩ := Nat.exists_eq_add_one_of_ne_zero (by omega : fuel₁ ≠ 0)
  change Leaves d (binaryRest (f + 1) level left) c₁ rest' Q
  rw [Parser.binaryRest]
  refine .acceptAny?_bind hrest₁ hop fun c₂ hrest₂ => ?_
  refine (hr f c₂ rest hrest₂ (by omega) stops).bind ?_
  rintro right c₃ hrest₃ rfl
  exact go f _ c₃ hrest₃ (Level.unnumbered_join ..) (by omega)

/-- An operand of a level is read as a binary expression of the tighter level. -/
theorem OperandComplete.ofTighter {level tighter : Level} (htighter : level.tighter? = some tighter)
    {ts : List Token} {e : Expr} (h : LevelComplete d tighter ts e) (pos : 0 < ts.length) :
    OperandComplete d level ts e := by
  intro fuel c rest hc hfuel stops
  obtain ⟨hdepth, hstops⟩ := Level.depth_tighter htighter
  have small : level.depth ≤ 11 := by cases level <;> decide
  obtain ⟨f, rfl⟩ := Nat.exists_eq_add_one_of_ne_zero (by omega : fuel ≠ 0)
  simp only [Parser.operand, htighter]
  exact h.expr pos f c rest hc (by omega) (hstops ▸ stops)

/-- A level holds what the tighter level reads. -/
theorem LevelComplete.ofTighter {level tighter : Level} (htighter : level.tighter? = some tighter)
    {ts : List Token} {e : Expr} (h : LevelComplete d tighter ts e) (pos : 0 < ts.length) :
    LevelComplete d level ts e :=
  .first (OperandComplete.ofTighter htighter h pos) pos

/-! ## Unary expressions and calls -/

/-- The tokens are read as a unary expression. -/
def UnaryComplete (d : Dialect) : List Token → Expr → Prop :=
  ExprComplete d unary 13 callStops

/-- The tokens are held in the loop for calls, which starts after a primary. -/
def CallComplete (d : Dialect) : List Token → Expr → Prop :=
  LoopComplete d (fun fuel => primary fuel >>= callRest fuel) callRest 14 []

/-- The tokens are read as a primary, whatever comes next. -/
def PrimaryComplete (d : Dialect) : List Token → Expr → Prop :=
  ExprComplete d primary 14 []

/-- What an assignment could go on with. -/
def assignmentStops : List TokenKind := Level.or.stops ++ [.equal]

/-- The tokens are read as an assignment. -/
def AssignmentComplete (d : Dialect) : List Token → Expr → Prop :=
  ExprComplete d assignment 0 assignmentStops

/-- The tokens are read as the arguments after `count` others. -/
def ArgumentsComplete (d : Dialect) (ts : List Token) (es : List Expr) : Prop :=
  ∀ fuel count c rest, c.rest = ts ++ rest → 16 * ts.length < fuel →
    (d.strict = true → count + es.length ≤ 255) → Stops (.comma :: assignmentStops) rest →
    Leaves d (arguments fuel count) c rest fun es' => Expr.unnumberedAll es' = es

theorem UnaryComplete.operand {ts : List Token} {e : Expr} (h : UnaryComplete d ts e)
    (pos : 0 < ts.length) : OperandComplete d .factor ts e := by
  intro fuel c rest hc hfuel stops
  simp only [Level.depth] at hfuel
  obtain ⟨f, rfl⟩ := Nat.exists_eq_add_one_of_ne_zero (by omega : fuel ≠ 0)
  exact h f c rest hc (by omega) stops

/-- A unary expression is held at every level, down to the loosest. -/
theorem UnaryComplete.or {ts : List Token} {e : Expr} (h : UnaryComplete d ts e)
    (pos : 0 < ts.length) : LevelComplete d .or ts e := by
  have factor : LevelComplete d .factor ts e := .first (h.operand pos) pos
  have term : LevelComplete d .term ts e := .ofTighter rfl factor pos
  have comparison : LevelComplete d .comparison ts e := .ofTighter rfl term pos
  have equality : LevelComplete d .equality ts e := .ofTighter rfl comparison pos
  have and : LevelComplete d .and ts e := .ofTighter rfl equality pos
  exact .ofTighter rfl and pos

theorem UnaryComplete.operator {op : Token} {ts : List Token} {e : Expr}
    (hop : op.kind ∈ [TokenKind.bang, .minus]) (h : UnaryComplete d ts e) :
    UnaryComplete d (op :: ts) (.unary op e) := by
  intro fuel c rest hc hfuel stops
  simp only [List.length_cons] at hfuel
  obtain ⟨f, rfl⟩ := Nat.exists_eq_add_one_of_ne_zero (by omega : fuel ≠ 0)
  rw [Parser.unary]
  refine .acceptAny?_bind hc hop fun c' hc' => (h f c' rest hc' (by omega) stops).bind_pure ?_
  rintro e' rfl
  rfl

/-- Before a call there is no unary operator, and after it the loop for calls ends. -/
theorem CallComplete.unary {ts : List Token} {e : Expr} (h : CallComplete d ts e)
    (starts : StartsWith callStarts ts) : UnaryComplete d ts e := by
  intro fuel c rest hc hfuel stops
  have pos := starts.length_pos
  obtain ⟨f, rfl⟩ := Nat.exists_eq_add_one_of_ne_zero (by omega : fuel ≠ 0)
  rw [Parser.unary]
  refine .acceptAny?_skip (stops_at_start hc starts (by decide)) ?_
  refine h f c rest rest _ hc (by omega) (by simp [Stops]) ?_
  intro f' head c' hrest he enough
  obtain ⟨g, rfl⟩ := Nat.exists_eq_add_one_of_ne_zero (by omega : f' ≠ 0)
  rw [Parser.callRest]
  refine .accept_skip ?_ (.accept_skip ?_ (.pure hrest he))
  · rw [hrest]
    exact stops.mono (by decide)
  · rw [hrest]
    exact stops.mono (by decide)

theorem CallComplete.first {ts : List Token} {e : Expr} (h : PrimaryComplete d ts e) :
    CallComplete d ts e := by
  intro fuel c rest rest' Q hc hfuel stops go
  exact (h fuel c rest hc hfuel stops).bind fun head c' hrest he =>
    go fuel head c' hrest he (by omega)

/-- One more step of the loop, which itself reads `us`. -/
theorem CallComplete.more {ts us : List Token} {callee e : Expr} (h : CallComplete d ts callee)
    (pos : 0 < us.length)
    (step : ∀ fuel c rest rest' Q head, c.rest = us ++ rest → 16 * us.length ≤ fuel + 16 →
      head.unnumbered = callee →
      (∀ head' c', c'.rest = rest → head'.unnumbered = e →
        Leaves d (callRest fuel head') c' rest' Q) →
      Leaves d (callRest (fuel + 1) head) c rest' Q) :
    CallComplete d (ts ++ us) e := by
  intro fuel c rest rest' Q hc hfuel stops go
  rw [List.length_append] at hfuel go
  refine h fuel c (us ++ rest) rest' Q (by simpa using hc) (by omega) (by simp [Stops]) ?_
  intro fuel₁ head c₁ hrest₁ he enough
  obtain ⟨f, rfl⟩ := Nat.exists_eq_add_one_of_ne_zero (by omega : fuel₁ ≠ 0)
  exact step f c₁ rest rest' Q head hrest₁ (by omega) he fun head' c' hrest he' =>
    go f head' c' hrest he' (by omega)

theorem CallComplete.none {l r : Token} {ts : List Token} {callee : Expr}
    (h : CallComplete d ts callee) (hl : l.kind = .leftParen) (hr : r.kind = .rightParen) :
    CallComplete d (ts ++ [l, r]) (.call callee r []) := by
  refine h.more (by simp) ?_
  rintro fuel c rest rest' Q head hc - rfl go
  rw [Parser.callRest]
  refine .accept_bind hc hl fun c₁ hc₁ => .check_bind hc₁ hr ?_
  exact .expect_bind hc₁ hr fun c₂ hc₂ => go _ c₂ hc₂ rfl

theorem CallComplete.some {l r : Token} {ts us : List Token} {callee : Expr} {es : List Expr}
    (h : CallComplete d ts callee) (hl : l.kind = .leftParen) (hes : ArgumentsComplete d us es)
    (starts : StartsWith expressionStarts us) (limit : d.strict = true → es.length ≤ 255)
    (hr : r.kind = .rightParen) :
    CallComplete d (ts ++ l :: (us ++ [r])) (.call callee r es) := by
  refine h.more (by simp) ?_
  rintro fuel c rest rest' Q head hc hfuel rfl go
  simp only [List.length_cons, List.length_append, List.length_nil] at hfuel
  rw [Parser.callRest]
  refine .accept_bind hc hl fun c₁ hc₁ => ?_
  rw [List.append_eq, List.append_assoc] at hc₁
  refine .check_skip (stops_at_start hc₁ starts (by decide)) ?_
  refine (hes fuel 0 c₁ _ hc₁ (by omega) (fun strict => by simpa using limit strict) ?_).bind ?_
  · exact stops_of_kind hr (by decide)
  · rintro es' c₂ hc₂ rfl
    exact .expect_bind hc₂ hr fun c₃ hc₃ => go _ c₃ hc₃ rfl

theorem CallComplete.property {dot name : Token} {ts : List Token} {object : Expr}
    (h : CallComplete d ts object) (hdot : dot.kind = .dot) (hname : name.kind = .identifier) :
    CallComplete d (ts ++ [dot, name]) (.get object name) := by
  refine h.more (by simp) ?_
  rintro fuel c rest rest' Q head hc - rfl go
  rw [Parser.callRest]
  refine .accept_skip (stops_at hc hdot (by decide)) ?_
  refine .accept_bind hc hdot fun c₁ hc₁ => ?_
  exact .expect_bind hc₁ hname fun c₂ hc₂ => go _ c₂ hc₂ rfl

/-! ## Arguments -/

/-- The report of a limit, if it is made, is tolerated, and what follows is the same either way. -/
theorem Leaves.limit {α : Type} {p : Parser α} {count : Nat} {fault : GrammarFault} {c : Cursor}
    {t : Token} {us rest : List Token} {Q : α → Prop}
    (hc : c.rest = t :: us) (limit : d.strict = true → count < 255)
    (soft : (Diagnostic.grammar t fault).isSoft = true)
    (hp : ∀ c', c'.rest = t :: us → Leaves d p c' rest Q) :
    Leaves d (if parameterLimit ≤ count then do report (← peek) fault; p else p) c rest Q := by
  split
  · rename_i reached
    have lax : d.strict = false := by
      cases strict : d.strict with
      | false => rfl
      | true => exact absurd (limit strict) (Nat.not_lt.2 reached)
    exact .peek_bind hc (.report_bind hc ⟨lax, soft⟩ hp)
  · exact hp c hc

theorem ArgumentsComplete.last {ts : List Token} {e : Expr} (h : AssignmentComplete d ts e)
    (starts : StartsWith expressionStarts ts) : ArgumentsComplete d ts [e] := by
  intro fuel count c rest hc hfuel limit stops
  obtain ⟨t, us, rfl, -⟩ := starts
  obtain ⟨f, rfl⟩ := Nat.exists_eq_add_one_of_ne_zero (by omega : fuel ≠ 0)
  rw [Parser.arguments]
  refine .limit hc limit rfl fun c₁ hc₁ => ?_
  refine (h f c₁ rest hc₁ (by omega) (stops.mono (by simp))).bind ?_
  rintro e' c₂ hc₂ rfl
  exact .accept_skip (by rw [hc₂]; exact stops.mono (by simp)) (.pure hc₂ rfl)

theorem ArgumentsComplete.more {comma : Token} {ts us : List Token} {e : Expr} {es : List Expr}
    (h : AssignmentComplete d ts e) (starts : StartsWith expressionStarts ts)
    (hcomma : comma.kind = .comma) (hes : ArgumentsComplete d us es) :
    ArgumentsComplete d (ts ++ comma :: us) (e :: es) := by
  intro fuel count c rest hc hfuel limit stops
  obtain ⟨t, ts, rfl, -⟩ := starts
  simp only [List.length_append, List.length_cons] at hfuel limit
  obtain ⟨f, rfl⟩ := Nat.exists_eq_add_one_of_ne_zero (by omega : fuel ≠ 0)
  rw [Parser.arguments]
  refine .limit hc (fun strict => by have := limit strict; omega) rfl fun c₁ hc₁ => ?_
  have next : Stops assignmentStops (comma :: us ++ rest) :=
    stops_of_kind hcomma (by decide)
  refine (h f c₁ (comma :: us ++ rest) (by simpa using hc₁)
    (by simp only [List.length_cons]; omega) next).bind ?_
  rintro e' c₂ hc₂ rfl
  refine .accept_bind hc₂ hcomma fun c₃ hc₃ => ?_
  refine (hes f (count + 1) c₃ rest hc₃ (by omega) (fun strict => ?_) stops).bind_pure ?_
  · have := limit strict
    omega
  · rintro es' rfl
    rfl

/-! ## Primaries -/

/-- The token of a constant is read as that constant. -/
theorem PrimaryComplete.constant {t : Token} {value : Constant}
    (ht : constant? t = some (.ok value)) : PrimaryComplete d [t] (.constant value) := by
  intro fuel c rest hc hfuel _
  simp only [List.length_singleton] at hfuel
  obtain ⟨f, rfl⟩ := Nat.exists_eq_add_one_of_ne_zero (by omega : fuel ≠ 0)
  rw [Parser.primary]
  refine .peek_bind hc ?_
  simp only [ht]
  exact .accept_bind hc rfl fun c₁ hc₁ => .pure hc₁ rfl

theorem constant?_of_literal {t : Token} {value : Literal}
    (ht : t.kind = .number ∨ t.kind = .string) (hvalue : t.literal = some value) :
    constant? t = some (.ok (constantOf value)) := by
  rcases ht with ht | ht <;> cases value <;> simp [constant?, ht, hvalue, constantOf]

theorem PrimaryComplete.this {t : Token} (ht : t.kind = .kwThis) :
    PrimaryComplete d [t] (.this 0 t) := by
  intro fuel c rest hc hfuel _
  simp only [List.length_singleton] at hfuel
  obtain ⟨f, rfl⟩ := Nat.exists_eq_add_one_of_ne_zero (by omega : fuel ≠ 0)
  rw [Parser.primary]
  refine .peek_bind hc ?_
  simp only [constant?, ht]
  exact .accept?_bind hc ht fun c₁ hc₁ => .freshId_bind hc₁ fun n c₂ hc₂ => .pure hc₂ rfl

theorem PrimaryComplete.name {t : Token} (ht : t.kind = .identifier) :
    PrimaryComplete d [t] (.name 0 t) := by
  intro fuel c rest hc hfuel _
  simp only [List.length_singleton] at hfuel
  obtain ⟨f, rfl⟩ := Nat.exists_eq_add_one_of_ne_zero (by omega : fuel ≠ 0)
  rw [Parser.primary]
  refine .peek_bind hc ?_
  simp only [constant?, ht]
  refine .accept?_skip (stops_at hc ht (by decide)) ?_
  exact .accept?_bind hc ht fun c₁ hc₁ => .freshId_bind hc₁ fun n c₂ hc₂ => .pure hc₂ rfl

theorem PrimaryComplete.super {keyword dot method : Token} (hkeyword : keyword.kind = .kwSuper)
    (hdot : dot.kind = .dot) (hmethod : method.kind = .identifier) :
    PrimaryComplete d [keyword, dot, method] (.super 0 keyword method) := by
  intro fuel c rest hc hfuel _
  simp only [List.length_cons, List.length_nil] at hfuel
  obtain ⟨f, rfl⟩ := Nat.exists_eq_add_one_of_ne_zero (by omega : fuel ≠ 0)
  rw [Parser.primary]
  refine .peek_bind hc ?_
  simp only [constant?, hkeyword]
  refine .accept?_skip (stops_at hc hkeyword (by decide)) ?_
  refine .accept?_skip (stops_at hc hkeyword (by decide)) ?_
  refine .accept?_bind hc hkeyword fun c₁ hc₁ => .expect_bind hc₁ hdot fun c₂ hc₂ => ?_
  exact .expect_bind hc₂ hmethod fun c₃ hc₃ => .freshId_bind hc₃ fun n c₄ hc₄ => .pure hc₄ rfl

theorem PrimaryComplete.grouping {l r : Token} {ts : List Token} {e : Expr}
    (hl : l.kind = .leftParen) (h : AssignmentComplete d ts e) (hr : r.kind = .rightParen) :
    PrimaryComplete d (l :: (ts ++ [r])) (.grouping e) := by
  intro fuel c rest hc hfuel _
  simp only [List.length_cons, List.length_append, List.length_nil] at hfuel
  obtain ⟨f, rfl⟩ := Nat.exists_eq_add_one_of_ne_zero (by omega : fuel ≠ 0)
  rw [Parser.primary]
  refine .peek_bind hc ?_
  simp only [constant?, hl]
  refine .accept?_skip (stops_at hc hl (by decide)) ?_
  refine .accept?_skip (stops_at hc hl (by decide)) ?_
  refine .accept?_skip (stops_at hc hl (by decide)) ?_
  refine .accept_bind hc hl fun c₁ hc₁ => ?_
  refine (h f c₁ (r :: rest) (by simpa using hc₁) (by omega)
    (stops_of_kind hr (by decide))).bind ?_
  rintro e' c₂ hc₂ rfl
  exact .expect_bind hc₂ hr fun c₃ hc₃ => .pure hc₃ rfl

/-! ## Assignments -/

theorem AssignmentComplete.nothing {ts : List Token} {e : Expr} (h : LevelComplete d .or ts e)
    (pos : 0 < ts.length) : AssignmentComplete d ts e := by
  intro fuel c rest hc hfuel stops
  obtain ⟨f, rfl⟩ := Nat.exists_eq_add_one_of_ne_zero (by omega : fuel ≠ 0)
  rw [Parser.assignment]
  refine (h.expr pos f c rest hc (by simp only [Level.depth]; omega) (stops.mono (by simp
    [assignmentStops]))).bind ?_
  rintro e' c₁ hc₁ rfl
  refine .accept?_skip ?_ (.pure hc₁ rfl)
  rw [hc₁]
  exact stops.mono (by simp [assignmentStops])

/-- The target, `=` and the value, up to the point at which the target is looked at. -/
theorem AssignmentComplete.ofTarget {equal : Token} {ts us : List Token} {target e e' : Expr}
    (ht : LevelComplete d .or ts target) (pos : 0 < ts.length) (hequal : equal.kind = .equal)
    (he : AssignmentComplete d us e)
    (look : ∀ (t v : Expr) (c : Cursor) (rest : List Token), c.rest = rest →
      t.unnumbered = target → v.unnumbered = e →
      Leaves d (match t with
        | .name _ token => return .assign (← freshId) token v
        | .get object property => return .set object property v
        | other => do report equal .invalidAssignmentTarget; return other) c rest
        fun a => a.unnumbered = e') :
    AssignmentComplete d (ts ++ equal :: us) e' := by
  intro fuel c rest hc hfuel stops
  simp only [List.length_append, List.length_cons] at hfuel
  obtain ⟨f, rfl⟩ := Nat.exists_eq_add_one_of_ne_zero (by omega : fuel ≠ 0)
  rw [Parser.assignment]
  refine (ht.expr pos f c (equal :: us ++ rest) (by simpa using hc)
    (by simp only [Level.depth]; omega) (stops_of_kind hequal (by decide))).bind ?_
  intro t c₁ hc₁ htarget
  refine .accept?_bind hc₁ hequal fun c₂ hc₂ => ?_
  refine (he f c₂ rest hc₂ (by omega) stops).bind fun v c₃ hc₃ hvalue => ?_
  exact look t v c₃ rest hc₃ htarget hvalue

theorem AssignmentComplete.name {name equal : Token} {ts : List Token} {e : Expr}
    (ht : LevelComplete d .or [name] (.name 0 name)) (hequal : equal.kind = .equal)
    (he : AssignmentComplete d ts e) :
    AssignmentComplete d (name :: equal :: ts) (.assign 0 name e) := by
  refine AssignmentComplete.ofTarget ht (by simp) hequal he ?_
  rintro t v c rest hc htarget rfl
  obtain ⟨j, rfl⟩ := Expr.unnumbered_eq_name htarget
  exact .freshId_bind hc fun n c₁ hc₁ => .pure hc₁ rfl

theorem AssignmentComplete.property {name equal : Token} {ts us : List Token} {object e : Expr}
    (ht : LevelComplete d .or ts (.get object name)) (pos : 0 < ts.length)
    (hequal : equal.kind = .equal) (he : AssignmentComplete d us e) :
    AssignmentComplete d (ts ++ equal :: us) (.set object name e) := by
  refine .ofTarget ht pos hequal he ?_
  rintro t v c rest hc htarget rfl
  obtain ⟨o, rfl, rfl⟩ := Expr.unnumbered_eq_get htarget
  exact .pure hc rfl

theorem AssignmentComplete.other {equal : Token} {ts us : List Token} {target e : Expr}
    (lax : d.strict = false) (ht : LevelComplete d .or ts target) (pos : 0 < ts.length)
    (other : target.isTarget = false) (hequal : equal.kind = .equal)
    (he : AssignmentComplete d us e) : AssignmentComplete d (ts ++ equal :: us) target := by
  refine .ofTarget ht pos hequal he ?_
  rintro t v c rest hc rfl -
  rw [Expr.isTarget_unnumbered] at other
  cases t with
  | name | get => simp [Expr.isTarget] at other
  | _ => exact .report_bind hc ⟨lax, rfl⟩ fun c₁ hc₁ => .pure hc₁ rfl

/-! ## Expressions with their own fuel -/

theorem AssignmentComplete.expression {ts rest : List Token} {e : Expr} {c : Cursor}
    (h : AssignmentComplete d ts e) (hc : c.rest = ts ++ rest) (stops : Stops assignmentStops rest) :
    Leaves d expression c rest fun e' => e'.unnumbered = e := by
  refine .get_bind (h _ c rest hc ?_ stops)
  rw [hc, expressionFuel, List.length_append]
  omega

/-- Either there is no expression, or the tokens are read as one. -/
def OptionalComplete (d : Dialect) (ts : List Token) (e : Option Expr) : Prop :=
  (ts = [] ∧ e = none) ∨
  ∃ v, e = some v ∧ AssignmentComplete d ts v ∧ StartsWith expressionStarts ts

theorem OptionalComplete.before {ts rest : List Token} {e : Option Expr} {c : Cursor} {t : Token}
    {closing : TokenKind} (h : OptionalComplete d ts e) (hc : c.rest = ts ++ t :: rest)
    (ht : t.kind = closing) (ends : closing ∉ expressionStarts ++ assignmentStops) :
    Leaves d (expressionBefore? closing) c (t :: rest) fun e' => e'.map Expr.unnumbered = e := by
  simp only [List.mem_append, not_or] at ends
  obtain ⟨rfl, rfl⟩ | ⟨v, rfl, complete, starts⟩ := h
  · exact .check_bind hc ht (.pure hc rfl)
  · refine .check_skip ?_ ?_
    · rw [hc]
      exact stops_of_startsWith starts (fun k hk => by
        rintro hmem
        obtain rfl : k = closing := by simpa using hmem
        exact ends.1 hk) _
    · refine (complete.expression hc (stops_cons (by rw [ht]; exact ends.2))).bind_pure ?_
      rintro e' rfl
      rfl

end ClassScript.Parser
