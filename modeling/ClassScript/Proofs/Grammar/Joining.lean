import ClassScript.Proofs.Grammar.Acceptance
import ClassScript.Proofs.Token.Items
import ClassScript.Proofs.Token.Joining
import ClassScript.Proofs.Tree.Retokened

set_option autoImplicit false

/-!
# Reading a program from joined tokens

The grammar goes by the kinds of tokens and the values of literals.  Tokens that were exchanged for
others of the same kind and value form the same phrase, and declarations one after the other are
declarations.  So the program of a joined source is the one program and then the other.
-/

namespace ClassScript

/-! ## The closing token -/

/-- The piece is not the end of the source. -/
def Piece.Inner (p : Piece) : Prop :=
  ∀ literal, p.kind ≠ .lexeme .endOfSource literal

theorem pieces_inner (text : List Char) : ∀ p ∈ pieces text, p.Inner := by
  fun_induction pieces text with
  | case1 => exact List.forall_mem_nil _
  | case2 c cs ih =>
    refine List.forall_mem_cons.2 ⟨fun literal kind => ?_, ih⟩
    exact (lexeme_of_cut kind).ne_endOfSource rfl

theorem lexemes_inner {ps : List Piece} (inner : ∀ p ∈ ps, p.Inner) (line : Nat) :
    ∀ t ∈ lexemes line ps, t.kind ≠ .endOfSource := by
  induction ps generalizing line with
  | nil => exact List.forall_mem_nil _
  | cons p ps ih =>
    obtain ⟨first, rest⟩ := List.forall_mem_cons.1 inner
    rw [lexemes, List.forall_mem_append]
    refine ⟨fun t ht same => ?_, ih rest _⟩
    have here := Option.mem_toList.1 ht
    unfold Piece.token? at here
    split at here
    · rename_i kind literal isLexeme
      cases here
      exact first literal (isLexeme.trans (by rw [← same]))
    · cases here

/-- The tokens of a source are closed by one token at their end. -/
theorem closedOnce_scan (source : String) : ClosedOnce (tokensOf (scan source)) :=
  ⟨_, _, tokensOf_scan source, lexemes_inner (pieces_inner _) 1, rfl⟩

namespace Grammar

/-! ## Exchanged tokens -/

section Exchanged

variable {d : Dialect} {f : Token → Token}

/-- The tree of a phrase with every token exchanged. -/
def Phrase.mapTokens (f : Token → Token) (p : Phrase) : p.Yield → p.Yield :=
  match p with
  | .program | .declarations | .block => Stmt.mapTokensAll f
  | .declaration | .varDecl | .statement _ | .exprStmt => Stmt.mapTokens f
  | .forFirst => Option.map (Stmt.mapTokens f)
  | .superclass | .initializer | .optional => Option.map (Expr.mapTokens f)
  | .methods => FunctionDecl.mapTokensAll f
  | .function => FunctionDecl.mapTokens f
  | .parameters => List.map f
  | .arguments => Expr.mapTokensAll f
  | .expression | .assignment | .logicOr | .logicAnd | .equality | .comparison | .term | .factor
  | .unary | .call | .primary => Expr.mapTokens f

theorem mapTokens_forLoop (first : Option Stmt) (condition increment : Option Expr)
    (body : Stmt) :
    (Stmt.forLoop first condition increment body).mapTokens f =
      Stmt.forLoop (first.map (Stmt.mapTokens f)) (condition.map (Expr.mapTokens f))
        (increment.map (Expr.mapTokens f)) (body.mapTokens f) := by
  cases first <;> cases condition <;> cases increment <;> rfl

theorem isTarget_mapTokens (e : Expr) : (e.mapTokens f).isTarget = e.isTarget := by
  cases e <;> rfl

theorem length_mapTokensAll (es : List Expr) : (Expr.mapTokensAll f es).length = es.length := by
  induction es with
  | nil => rfl
  | cons e es ih => simp [Expr.mapTokensAll, ih]

/-- Tokens of the same kinds and values form the same phrase. -/
theorem derives_mapTokens (kind : ∀ t, (f t).kind = t.kind)
    (literal : ∀ t, (f t).literal = t.literal) {p : Phrase} {ts : List Token} {y : p.Yield}
    (h : Derives d p ts y) : Derives d p (ts.map f) (p.mapTokens f y) := by
  have kinds : ∀ {t k}, t.kind = k → (f t).kind = k := fun h => (kind _).trans h
  have among : ∀ {t} {ks : List TokenKind}, t.kind ∈ ks → (f t).kind ∈ ks :=
    fun h => (kind _).symm ▸ h
  induction h <;> try simp only [List.map_append, List.map_cons, List.map_nil]
  case program heof ih => exact .program ih (kinds heof)
  case noDeclaration => exact .noDeclaration
  case moreDeclarations ih ihs => exact .moreDeclarations ih ihs
  case classDecl hkeyword hname _ hl _ hr ihsuper ih =>
    exact .classDecl (kinds hkeyword) (kinds hname) ihsuper (kinds hl) ih (kinds hr)
  case noSuperclass => exact .noSuperclass
  case superclass hless hname => exact .superclass (kinds hless) (kinds hname)
  case noMethod => exact .noMethod
  case moreMethods ih ihs => exact .moreMethods ih ihs
  case funDecl hkeyword _ ih => exact .funDecl (kinds hkeyword) ih
  case functionNone hname hl hr _ ih =>
    exact .functionNone (kinds hname) (kinds hl) (kinds hr) ih
  case functionSome hname hl _ limit hr _ ihparams ih =>
    refine .functionSome (kinds hname) (kinds hl) ihparams (fun strict => ?_) (kinds hr) ih
    exact (List.length_map f).trans_le (limit strict)
  case lastParameter hname => exact .lastParameter (kinds hname)
  case moreParameters hname hcomma _ ih => exact .moreParameters (kinds hname) (kinds hcomma) ih
  case varDeclaration ih => exact .varDeclaration ih
  case varDecl hkeyword hname _ hsemicolon ih =>
    exact .varDecl (kinds hkeyword) (kinds hname) ih (kinds hsemicolon)
  case noInitializer => exact .noInitializer
  case initializer hequal _ ih => exact .initializer (kinds hequal) ih
  case statement ih => exact .statement ih
  case expressionStatement ih => exact .expressionStatement ih
  case exprStmt hsemicolon ih => exact .exprStmt ih (kinds hsemicolon)
  case forStmt hkeyword hl _ _ hsemicolon _ hr _ ihfirst ihcondition ihincrement ih =>
    rw [Phrase.mapTokens, mapTokens_forLoop]
    exact .forStmt (kinds hkeyword) (kinds hl) ihfirst ihcondition (kinds hsemicolon) ihincrement
      (kinds hr) ih
  case forVariable ih => exact .forVariable ih
  case forExpression ih => exact .forExpression ih
  case forNothing hsemicolon => exact .forNothing (kinds hsemicolon)
  case ifThen hkeyword hl _ hr _ ihcondition ih =>
    exact .ifThen (kinds hkeyword) (kinds hl) ihcondition (kinds hr) ih
  case ifElse hkeyword hl _ hr _ ends hels _ ihcondition ihthen ihelse =>
    exact .ifElse (kinds hkeyword) (kinds hl) ihcondition (kinds hr) ihthen ends (kinds hels) ihelse
  case printStmt hkeyword _ hsemicolon ih => exact .printStmt (kinds hkeyword) ih (kinds hsemicolon)
  case returnStmt hkeyword _ hsemicolon ih =>
    exact .returnStmt (kinds hkeyword) ih (kinds hsemicolon)
  case whileStmt hkeyword hl _ hr _ ihcondition ih =>
    exact .whileStmt (kinds hkeyword) (kinds hl) ihcondition (kinds hr) ih
  case blockStatement ih => exact .blockStatement ih
  case block hl _ hr ih => exact .block (kinds hl) ih (kinds hr)
  case optionalNone => exact .optionalNone
  case optionalSome ih => exact .optionalSome ih
  case expression ih => exact .expression ih
  case assignName hname hequal _ ih => exact .assignName (kinds hname) (kinds hequal) ih
  case assignProperty hdot hname hequal _ ihobject ih =>
    exact .assignProperty ihobject (kinds hdot) (kinds hname) (kinds hequal) ih
  case assignOther lax _ target hequal _ ihtarget ih =>
    exact .assignOther lax ihtarget ((isTarget_mapTokens _).trans target) (kinds hequal) ih
  case assignNothing ih => exact .assignNothing ih
  case logicOrFirst ih => exact .logicOrFirst ih
  case logicOrMore hop _ ihl ihr => exact .logicOrMore ihl (kinds hop) ihr
  case logicAndFirst ih => exact .logicAndFirst ih
  case logicAndMore hop _ ihl ihr => exact .logicAndMore ihl (kinds hop) ihr
  case equalityFirst ih => exact .equalityFirst ih
  case equalityMore hop _ ihl ihr => exact .equalityMore ihl (among hop) ihr
  case comparisonFirst ih => exact .comparisonFirst ih
  case comparisonMore hop _ ihl ihr => exact .comparisonMore ihl (among hop) ihr
  case termFirst ih => exact .termFirst ih
  case termMore hop _ ihl ihr => exact .termMore ihl (among hop) ihr
  case factorFirst ih => exact .factorFirst ih
  case factorMore hop _ ihl ihr => exact .factorMore ihl (among hop) ihr
  case unaryOperator hop _ ih => exact .unaryOperator (among hop) ih
  case unaryCall ih => exact .unaryCall ih
  case callFirst ih => exact .callFirst ih
  case callNone hl hr ih => exact .callNone ih (kinds hl) (kinds hr)
  case callSome hl _ limit hr ih ihargs =>
    refine .callSome ih (kinds hl) ihargs (fun strict => ?_) (kinds hr)
    exact (length_mapTokensAll _).trans_le (limit strict)
  case callProperty hdot hname ih => exact .callProperty ih (kinds hdot) (kinds hname)
  case lastArgument ih => exact .lastArgument ih
  case moreArguments hcomma _ ih ihs => exact .moreArguments ih (kinds hcomma) ihs
  case literal ht hvalue => exact .literal (ht.imp kinds kinds) ((literal _).trans hvalue)
  case true ht => exact .true (kinds ht)
  case false ht => exact .false (kinds ht)
  case nil ht => exact .nil (kinds ht)
  case this ht => exact .this (kinds ht)
  case name ht => exact .name (kinds ht)
  case grouping hl _ hr ih => exact .grouping (kinds hl) ih (kinds hr)
  case super hkeyword hdot hmethod => exact .super (kinds hkeyword) (kinds hdot) (kinds hmethod)

end Exchanged

/-! ## Declarations one after the other -/

/-- Declarations can have others after them. -/
def Extends (d : Dialect) (us : List Token) (ss' : List Stmt) :
    (p : Phrase) → List Token → p.Yield → Prop
  | .declarations => fun ts ss => Derives d .declarations (ts ++ us) (ss ++ ss')
  | _ => fun _ _ => True

theorem derives_extends {d : Dialect} {us : List Token} {ss' : List Stmt}
    (more : Derives d .declarations us ss') {p : Phrase} {ts : List Token} {y : p.Yield}
    (h : Derives d p ts y) : Extends d us ss' p ts y := by
  induction h with
  | noDeclaration => exact more
  | @moreDeclarations ts us' _ _ first _ _ ih =>
    change Derives d .declarations (ts ++ us' ++ us) _
    rw [List.append_assoc]
    exact .moreDeclarations first ih
  | _ => trivial

/-- What the last token of a program closes are declarations. -/
theorem declarations_of_program {d : Dialect} {ts : List Token} {ss : List Stmt} {eof : Token}
    (h : Derives d .program (ts ++ [eof]) ss) : Derives d .declarations ts ss := by
  generalize whole : ts ++ [eof] = tokens at h
  cases h with | @program ts' _ eof' declared _ =>
  obtain ⟨rfl, -⟩ := List.append_inj' whole rfl
  exact declared

end Grammar

/-! ## Sources -/

open Grammar

/-- The source has no lexical fault, and its tokens are the declarations of a program. -/
structure Reads (source : String) (tree : List Stmt) : Prop where
  clean : faultsOf (scan source) = []
  derived : Derives .settled .declarations (bodyOf source) tree

namespace Reads

variable {s t source : String} {ss ts tree program : List Stmt} {firstId : Nat}

theorem of_parse (clean : faultsOf (scan source) = [])
    (h : (parse (tokensOf (scan source)) firstId).outcome = .program program) :
    Reads source (Stmt.unnumberedAll program) := by
  have derived := derives_of_parse (d := .settled) (closedOnce_scan source) h
  rw [tokensOf_scan] at derived
  exact ⟨clean, declarations_of_program derived⟩

/-- What reads as a program is read as it, from any number on. -/
theorem parse (h : Reads source tree) (firstId : Nat) :
    ∃ program, (ClassScript.parse (tokensOf (scan source)) firstId).outcome = .program program ∧
      Stmt.unnumberedAll program = tree := by
  apply parse_of_derives (closedOnce_scan source)
  rw [tokensOf_scan]
  exact .program h.derived rfl

/-- Further down, a source reads as the same program there. -/
theorem lowered (h : Reads t ts) (k : Nat) :
    Reads (lowered k t) (Stmt.mapTokensAll (Token.down k) ts) where
  clean := faultsOf_lowered k h.clean
  derived := by
    rw [bodyOf_lowered]
    exact derives_mapTokens (f := Token.down k) (fun _ => rfl) (fun _ => rfl) h.derived

/-- Joined sources read as the one program and then the other, further down. -/
theorem joined (hs : Reads s ss) (ht : Reads t ts) :
    Reads (joined s t) (ss ++ Stmt.mapTokensAll (Token.down (linesOf s)) ts) where
  clean := faultsOf_joined hs.clean ht.clean
  derived := by
    have below := (ht.lowered (linesOf s)).derived
    rw [bodyOf_lowered] at below
    rw [bodyOf_joined hs.clean]
    exact derives_extends below hs.derived

end Reads

end ClassScript
