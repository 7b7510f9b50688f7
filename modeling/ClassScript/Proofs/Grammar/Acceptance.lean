import ClassScript.Proofs.Grammar.StatementCompleteness

set_option autoImplicit false

/-!
# The parser accepts its grammar

Soundness and completeness together.  The rules as they are written allow more derivations than the
settled ones, but not more programs: an `else` that is too far from its `if` can be moved to the
nearest one that can have it, by which the tokens stay as they are.
-/

namespace ClassScript.Grammar

/-! ## Moving an `else` to the nearest `if` -/

/-- The tokens of a statement that ends in an `if` without `else` are still a statement with an
`else` after them. -/
def TakesElse (strict : Bool) : (p : Phrase) → List Token → p.Yield → Prop
  | .statement true => fun ts _ =>
    ∀ (els : Token) (es : List Token) (q : Bool) (s : Stmt), els.kind = .kwElse →
      Derives ⟨strict, true⟩ (.statement q) es s →
      ∃ q' s', Derives ⟨strict, true⟩ (.statement q') (ts ++ els :: es) s'
  | _ => fun _ _ => True

/-- The `else` goes to the `if` at the very end, which is found at the end of the body of a loop or
at the end of the last branch. -/
theorem takesElse {strict : Bool} {p : Phrase} {ts : List Token} {y : p.Yield}
    (h : Derives ⟨strict, true⟩ p ts y) : TakesElse strict p ts y := by
  induction h with
  | @ifThen keyword l r cs ts condition thenBranch o hkeyword hl hcondition hr hthen _ ih =>
    intro els es q s hels hes
    cases o with
    | false =>
      have joined := Derives.ifElse hkeyword hl hcondition hr hthen (fun _ => rfl) hels hes
      exact ⟨q, _, by simpa using joined⟩
    | true =>
      obtain ⟨q', s', h'⟩ := ih els es q s hels hes
      have joined := Derives.ifThen hkeyword hl hcondition hr h'
      exact ⟨true, _, by simpa using joined⟩
  | @ifElse keyword l r els' cs ts es' _ _ _ o p hkeyword hl hcondition hr hthen ends hels' helse
      _ _ ih =>
    cases p with
    | false => trivial
    | true =>
      intro els es q s hels hes
      obtain ⟨q', s', h'⟩ := ih els es q s hels hes
      have joined := Derives.ifElse hkeyword hl hcondition hr hthen ends hels' h'
      exact ⟨q', _, by simpa using joined⟩
  | @whileStmt keyword l r cs ts condition body o hkeyword hl hcondition hr hbody _ ih =>
    cases o with
    | false => trivial
    | true =>
      intro els es q s hels hes
      obtain ⟨q', s', h'⟩ := ih els es q s hels hes
      have joined := Derives.whileStmt hkeyword hl hcondition hr h'
      exact ⟨q', _, by simpa using joined⟩
  | @forStmt keyword l semicolon r is cs ss bs first condition increment body o hkeyword hl hfirst
      hcondition hsemicolon hincrement hr hbody _ _ _ ih =>
    cases o with
    | false => trivial
    | true =>
      intro els es q s hels hes
      obtain ⟨q', s', h'⟩ := ih els es q s hels hes
      have joined :=
        Derives.forStmt hkeyword hl hfirst hcondition hsemicolon hincrement hr h'
      exact ⟨q', _, by simpa using joined⟩
  | _ => trivial

/-- What the rules make of tokens when each `else` belongs to the nearest `if`: the same tree if there
is no statement in it, else some tree. -/
def Settles (strict : Bool) : (p : Phrase) → List Token → p.Yield → Prop
  | .statement _ => fun ts _ => ∃ o s, Derives ⟨strict, true⟩ (.statement o) ts s
  | .program => fun ts _ => ∃ y, Derives ⟨strict, true⟩ .program ts y
  | .declarations => fun ts _ => ∃ y, Derives ⟨strict, true⟩ .declarations ts y
  | .declaration => fun ts _ => ∃ y, Derives ⟨strict, true⟩ .declaration ts y
  | .methods => fun ts _ => ∃ y, Derives ⟨strict, true⟩ .methods ts y
  | .function => fun ts _ => ∃ y, Derives ⟨strict, true⟩ .function ts y
  | .block => fun ts _ => ∃ y, Derives ⟨strict, true⟩ .block ts y
  | p => Derives ⟨strict, true⟩ p

/-- Tokens that form a phrase with each `else` anywhere form one with each at the nearest `if`. -/
theorem settles {strict : Bool} {p : Phrase} {ts : List Token} {y : p.Yield}
    (h : Derives ⟨strict, false⟩ p ts y) : Settles strict p ts y := by
  induction h with
  | program _ heof ih => obtain ⟨y, h⟩ := ih; exact ⟨y, .program h heof⟩
  | noDeclaration => exact ⟨_, .noDeclaration⟩
  | moreDeclarations _ _ ih ihs =>
    obtain ⟨y, h⟩ := ih
    obtain ⟨ys, hs⟩ := ihs
    exact ⟨_, .moreDeclarations h hs⟩
  | classDecl hkeyword hname _ hl _ hr ihsuper ih =>
    obtain ⟨ys, hs⟩ := ih
    exact ⟨_, .classDecl hkeyword hname ihsuper hl hs hr⟩
  | noSuperclass => exact .noSuperclass
  | superclass hless hname => exact .superclass hless hname
  | noMethod => exact ⟨_, .noMethod⟩
  | moreMethods _ _ ih ihs =>
    obtain ⟨y, h⟩ := ih
    obtain ⟨ys, hs⟩ := ihs
    exact ⟨_, .moreMethods h hs⟩
  | funDecl hkeyword _ ih => obtain ⟨y, h⟩ := ih; exact ⟨_, .funDecl hkeyword h⟩
  | functionNone hname hl hr _ ih =>
    obtain ⟨y, h⟩ := ih
    exact ⟨_, .functionNone hname hl hr h⟩
  | functionSome hname hl _ limit hr _ ihparams ih =>
    obtain ⟨y, h⟩ := ih
    exact ⟨_, .functionSome hname hl ihparams limit hr h⟩
  | lastParameter hname => exact .lastParameter hname
  | moreParameters hname hcomma _ ih => exact .moreParameters hname hcomma ih
  | varDeclaration _ ih => exact ⟨_, .varDeclaration ih⟩
  | varDecl hkeyword hname _ hsemicolon ih => exact .varDecl hkeyword hname ih hsemicolon
  | noInitializer => exact .noInitializer
  | initializer hequal _ ih => exact .initializer hequal ih
  | statement _ ih => obtain ⟨o, s, h⟩ := ih; exact ⟨_, .statement h⟩
  | expressionStatement _ ih => exact ⟨_, _, .expressionStatement ih⟩
  | exprStmt _ hsemicolon ih => exact .exprStmt ih hsemicolon
  | forStmt hkeyword hl _ _ hsemicolon _ hr _ ihfirst ihcondition ihincrement ih =>
    obtain ⟨o, s, h⟩ := ih
    exact ⟨_, _, .forStmt hkeyword hl ihfirst ihcondition hsemicolon ihincrement hr h⟩
  | forVariable _ ih => exact .forVariable ih
  | forExpression _ ih => exact .forExpression ih
  | forNothing hsemicolon => exact .forNothing hsemicolon
  | ifThen hkeyword hl _ hr _ ihcondition ih =>
    obtain ⟨o, s, h⟩ := ih
    exact ⟨_, _, .ifThen hkeyword hl ihcondition hr h⟩
  | ifElse hkeyword hl _ hr _ _ hels _ ihcondition ihthen ihelse =>
    obtain ⟨o, s, hthen⟩ := ihthen
    obtain ⟨p, t, helse⟩ := ihelse
    cases o with
    | false => exact ⟨_, _, .ifElse hkeyword hl ihcondition hr hthen (fun _ => rfl) hels helse⟩
    | true =>
      obtain ⟨q, u, h⟩ := takesElse hthen _ _ p t hels helse
      exact ⟨_, _, .ifThen hkeyword hl ihcondition hr h⟩
  | printStmt hkeyword _ hsemicolon ih => exact ⟨_, _, .printStmt hkeyword ih hsemicolon⟩
  | returnStmt hkeyword _ hsemicolon ih => exact ⟨_, _, .returnStmt hkeyword ih hsemicolon⟩
  | whileStmt hkeyword hl _ hr _ ihcondition ih =>
    obtain ⟨o, s, h⟩ := ih
    exact ⟨_, _, .whileStmt hkeyword hl ihcondition hr h⟩
  | blockStatement _ ih => obtain ⟨y, h⟩ := ih; exact ⟨_, _, .blockStatement h⟩
  | block hl _ hr ih => obtain ⟨y, h⟩ := ih; exact ⟨_, .block hl h hr⟩
  | optionalNone => exact .optionalNone
  | optionalSome _ ih => exact .optionalSome ih
  | expression _ ih => exact .expression ih
  | assignName hname hequal _ ih => exact .assignName hname hequal ih
  | assignProperty _ hdot hname hequal _ ihobject ih =>
    exact .assignProperty ihobject hdot hname hequal ih
  | assignOther lax _ other hequal _ ihtarget ih => exact .assignOther lax ihtarget other hequal ih
  | assignNothing _ ih => exact .assignNothing ih
  | logicOrFirst _ ih => exact .logicOrFirst ih
  | logicOrMore _ hop _ ihl ihr => exact .logicOrMore ihl hop ihr
  | logicAndFirst _ ih => exact .logicAndFirst ih
  | logicAndMore _ hop _ ihl ihr => exact .logicAndMore ihl hop ihr
  | equalityFirst _ ih => exact .equalityFirst ih
  | equalityMore _ hop _ ihl ihr => exact .equalityMore ihl hop ihr
  | comparisonFirst _ ih => exact .comparisonFirst ih
  | comparisonMore _ hop _ ihl ihr => exact .comparisonMore ihl hop ihr
  | termFirst _ ih => exact .termFirst ih
  | termMore _ hop _ ihl ihr => exact .termMore ihl hop ihr
  | factorFirst _ ih => exact .factorFirst ih
  | factorMore _ hop _ ihl ihr => exact .factorMore ihl hop ihr
  | unaryOperator hop _ ih => exact .unaryOperator hop ih
  | unaryCall _ ih => exact .unaryCall ih
  | callFirst _ ih => exact .callFirst ih
  | callNone _ hl hr ih => exact .callNone ih hl hr
  | callSome _ hl _ limit hr ih ihargs => exact .callSome ih hl ihargs limit hr
  | callProperty _ hdot hname ih => exact .callProperty ih hdot hname
  | lastArgument _ ih => exact .lastArgument ih
  | moreArguments _ hcomma _ ih ihs => exact .moreArguments ih hcomma ihs
  | literal ht hvalue => exact .literal ht hvalue
  | true ht => exact .true ht
  | false ht => exact .false ht
  | nil ht => exact .nil ht
  | this ht => exact .this ht
  | name ht => exact .name ht
  | grouping hl _ hr ih => exact .grouping hl ih hr
  | super hkeyword hdot hmethod => exact .super hkeyword hdot hmethod

end ClassScript.Grammar

namespace ClassScript

open Grammar

/-! ## Programs -/

/-- The end of the source is the last token and no other one. -/
def ClosedOnce (tokens : List Token) : Prop :=
  ∃ ts eof, tokens = ts ++ [eof] ∧ (∀ t ∈ ts, t.kind ≠ .endOfSource) ∧ eof.kind = .endOfSource

/-- What is there to read when reading starts. -/
theorem Cursor.start_closed {ts : List Token} {eof : Token}
    (inner : ∀ t ∈ ts, t.kind ≠ .endOfSource) (heof : eof.kind = .endOfSource) (firstId : Nat) :
    Cursor.start (ts ++ [eof]) firstId =
      { rest := ts, closing := eof, nextId := firstId, faults := #[] } := by
  have taken : (ts ++ [eof]).takeWhile (fun t => t.kind ≠ .endOfSource) = ts := by
    rw [List.takeWhile_append_of_pos (by simpa using inner)]
    simp [heof]
  have found : (ts ++ [eof]).find? (fun t => t.kind = .endOfSource) = some eof := by
    rw [List.find?_append, List.find?_eq_none.2 (by simpa using inner)]
    simp [heof]
  rw [Cursor.start, taken, found]
  rfl

/-- Diagnostics that find no token are placed at the end of the source. -/
theorem Cursor.closing_start (tokens : List Token) (firstId : Nat) :
    (Cursor.start tokens firstId).closing.kind = .endOfSource := by
  unfold Cursor.start
  cases found : tokens.find? fun t => t.kind = .endOfSource with
  | none => rfl
  | some t => simpa using List.find?_some found

/-- A program that is returned was read without any report. -/
theorem parse_eq_program {tokens : List Token} {firstId : Nat} {statements : List Stmt} :
    (parse tokens firstId).outcome = .program statements ↔
      ∃ c, Parser.program (Parser.programFuel (Cursor.start tokens firstId).rest.length)
        (Cursor.start tokens firstId) = .ok statements c ∧ c.faults.toList = [] := by
  unfold parse
  dsimp only
  split
  · rename_i ss c run
    have same : (∃ c', ss = statements ∧ c = c' ∧ c'.faults = #[]) ↔
        ss = statements ∧ c.faults = #[] := by
      constructor
      · rintro ⟨c', rfl, rfl, h⟩
        exact ⟨rfl, h⟩
      · rintro ⟨rfl, h⟩
        exact ⟨c, rfl, rfl, h⟩
    by_cases h : c.faults = #[]
    · simp [run, h, same, and_assoc]
    · simp [run, h, same, and_assoc]
  · rename_i x c run
    simp [run]
  · rename_i c run
    simp [run]

/-- The program that is returned derives under the rules of either strict dialect. -/
theorem derives_of_parse {d : Dialect} {tokens : List Token} (closed : ClosedOnce tokens)
    {firstId : Nat} {statements : List Stmt}
    (h : (parse tokens firstId).outcome = .program statements) :
    Derives d .program tokens (Stmt.unnumberedAll statements) := by
  obtain ⟨ts, eof, rfl, inner, heof⟩ := closed
  obtain ⟨c, run, silent⟩ := parse_eq_program.1 h
  rw [Cursor.start_closed inner heof] at run
  obtain ⟨us, ds, reads, good⟩ := (Parser.program_sound (d := d) _).ok heof run
  have nothing : ds = [] := by simpa [silent] using reads.faults.symm
  obtain ⟨derived, ended⟩ := good (by simp [nothing])
  have all : ts = us := by simpa [ended] using reads.rest
  rw [all]
  exact .program derived heof

/-- A program that derives under the settled rules is returned, up to node numbers. -/
theorem parse_of_derives {tokens : List Token} (closed : ClosedOnce tokens) (firstId : Nat)
    {tree : List Stmt} (h : Derives .settled .program tokens tree) :
    ∃ statements, (parse tokens firstId).outcome = .program statements ∧
      Stmt.unnumberedAll statements = tree := by
  obtain ⟨ts, eof, rfl, inner, heof⟩ := closed
  generalize htokens : ts ++ [eof] = tokens at h
  cases h with | @program us _ eof' declared _ =>
  obtain ⟨rfl, -⟩ : ts = us ∧ [eof] = [eof'] := List.append_inj' htokens rfl
  rw [← htokens]
  have complete : Parser.DeclarationsComplete .settled ts tree := Parser.completes rfl declared
  obtain ⟨statements, c, run, -, ⟨ds, hds, tolerated⟩, rfl⟩ :=
    complete.atTop (Parser.programFuel ts.length)
      { rest := ts, closing := eof, nextId := firstId, faults := #[] } rfl
      (by rw [Parser.programFuel]; omega)
  have nothing : ds = [] :=
    List.eq_nil_iff_forall_not_mem.2 fun x hx => (tolerated x hx).lax rfl
  refine ⟨statements, parse_eq_program.2 ⟨c, ?_, by simpa [nothing] using hds⟩, rfl⟩
  rw [Cursor.start_closed inner heof]
  exact run

/-- A program is returned exactly if the tokens derive one under the written rules, with their
limits on parameters and arguments; and it is then the one tree that the tokens have when each
`else` belongs to the nearest `if`. -/
theorem parse_accepts_grammar {tokens : List Token} (closed : ClosedOnce tokens) (firstId : Nat) :
    ((∃ statements, (parse tokens firstId).outcome = .program statements) ↔
      ∃ tree, Derives .written .program tokens tree) ∧
    ∀ statements, (parse tokens firstId).outcome = .program statements →
      Derives .settled .program tokens (Stmt.unnumberedAll statements) ∧
      ∀ tree, Derives .settled .program tokens tree → tree = Stmt.unnumberedAll statements := by
  refine ⟨⟨?_, ?_⟩, ?_⟩
  · rintro ⟨statements, h⟩
    exact ⟨_, derives_of_parse closed h⟩
  · rintro ⟨tree, h⟩
    obtain ⟨tree', h'⟩ := settles h
    obtain ⟨statements, returned, -⟩ := parse_of_derives closed firstId h'
    exact ⟨statements, returned⟩
  · intro statements h
    refine ⟨derives_of_parse closed h, fun tree derived => ?_⟩
    obtain ⟨statements', returned, rfl⟩ := parse_of_derives closed firstId derived
    have same : statements = statements' := by simpa [h] using returned
    rw [same]

/-- The tokens of `print nil;`. -/
def printNil : List Token :=
  [⟨.kwPrint, "print", none, 1⟩, ⟨.kwNil, "nil", none, 1⟩, ⟨.semicolon, ";", none, 1⟩,
   .closing 1]

theorem closedOnce_printNil : ClosedOnce printNil :=
  ⟨printNil.dropLast, .closing 1, rfl, by decide, rfl⟩

theorem derives_printNil : ∃ tree, Derives .written .program printNil tree := by
  have value : Derives .written .expression [⟨.kwNil, "nil", none, 1⟩] (.constant .nil) := by
    refine .expression (.assignNothing (.logicOrFirst (.logicAndFirst (.equalityFirst ?_))))
    exact .comparisonFirst (.termFirst (.factorFirst (.unaryCall (.callFirst (.nil rfl)))))
  have print : Derives .written (.statement false) printNil.dropLast (.print (.constant .nil)) :=
    .printStmt rfl value rfl
  exact ⟨_, .program (.moreDeclarations (.statement print) .noDeclaration) rfl⟩

theorem parse_accepts_printNil :
    ClosedOnce printNil ∧ ∃ statements, (parse printNil 0).outcome = .program statements :=
  ⟨closedOnce_printNil, (parse_accepts_grammar closedOnce_printNil 0).1.2 derives_printNil⟩

end ClassScript
