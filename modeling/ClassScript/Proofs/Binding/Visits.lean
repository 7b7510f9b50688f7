import ClassScript.Binding.Resolve
import ClassScript.Proofs.Tree.WellFormed

set_option autoImplicit false

/-!
# Visits

Where the walk that binds names meets each reference: between which constructs, and with which
scopes open.  This is read off the tree alone.  What the walk does there to its table and its faults
is a separate matter.
-/

namespace ClassScript

/-! ## Scopes along the walk -/

/-- What the innermost scope says about a name. -/
def stageIn (scopes : List Frame) (name : String) : Option Stage :=
  (scopes.head?.getD []).lookup name

/-- The scopes with an entry put into the innermost one, if one is open. -/
def putName (name : String) (stage : Stage) : List Frame → List Frame
  | [] => []
  | frame :: outer => ((name, stage) :: frame) :: outer

/-- The scopes once a name is declared. -/
def declareName (name : String) (scopes : List Frame) : List Frame :=
  if (stageIn scopes name).isSome then scopes else putName name .declared scopes

/-- The scopes once a name can be used. -/
def bindName (name : String) (scopes : List Frame) : List Frame :=
  putName name .defined (declareName name scopes)

/-- The scopes once several names can be used. -/
def bindNames (names : List String) (scopes : List Frame) : List Frame :=
  names.foldl (fun scopes name => bindName name scopes) scopes

theorem lookup_put (name other : String) (stage : Stage) (frame : Frame) :
    ((name, stage) :: frame : Frame).lookup other =
      if other = name then some stage else frame.lookup other := by
  by_cases h : other = name
  · simp [h]
  · simp [List.lookup_cons, h, beq_eq_false_iff_ne.2 h]

/-- A name that is bound comes on top of what the innermost scope has. -/
theorem exists_bindName (name : String) (frame : Frame) (frames : List Frame) :
    ∃ frame', bindName name (frame :: frames) = frame' :: frames ∧
      ∀ other, frame'.lookup other =
        if other = name then some .defined else frame.lookup other := by
  unfold bindName declareName
  split
  · exact ⟨_, rfl, fun other => lookup_put name other .defined frame⟩
  · refine ⟨_, rfl, fun other => ?_⟩
    rw [lookup_put, lookup_put]
    split <;> rfl

/-- The scopes after a statement: those before it, with what it declares in the innermost one. -/
def Stmt.after : Stmt → List Frame → List Frame
  | .varDecl name _, scopes => bindName name.lexeme scopes
  | .funDecl declaration, scopes => bindName declaration.name.lexeme scopes
  | .classDecl name _ _, scopes => bindName name.lexeme scopes
  | .ifThen _ thenBranch, scopes => thenBranch.after scopes
  | .ifElse _ thenBranch elseBranch, scopes => elseBranch.after (thenBranch.after scopes)
  | .whileLoop _ body, scopes => body.after scopes
  | _, scopes => scopes

/-- The scopes after statements. -/
def Stmt.afterAll (ss : List Stmt) (scopes : List Frame) : List Frame :=
  ss.foldl (fun scopes s => s.after scopes) scopes

/-- The scope of the receiver around methods. -/
def receiverFrame : Frame := [("this", .defined)]

/-- The scope of the superclass around that of the receiver. -/
def superclassFrame : Frame := [("super", .defined)]

/-! ## What opens a scope -/

/-- The constructs that have a scope of their own. -/
inductive Site where
  | block (body : List Stmt)
  | body (f : FunctionDecl)
  /-- the scope of the receiver, around the methods of a class -/
  | this (methods : List FunctionDecl)
  /-- the scope of the superclass, around that of the receiver -/
  | super (methods : List FunctionDecl)

/-- A reference where the walk meets it: the open scopes, innermost first, and their constructs. -/
structure Visit where
  reference : Reference
  sites : List Site
  scopes : List Frame

namespace Visit

/-- The number of the node. -/
def id (v : Visit) : Nat := v.reference.id

/-- The word that the node refers by. -/
def name (v : Visit) : String := v.reference.token.lexeme

end Visit

/-- References that are met in the same place. -/
def visitsAt (sites : List Site) (scopes : List Frame) (rs : List Reference) : List Visit :=
  rs.map fun r => { reference := r, sites, scopes }

mutual

/-- The visits of a statement, in reading order. -/
def Stmt.visits (sites : List Site) (scopes : List Frame) : Stmt → List Visit
  | .expression value => visitsAt sites scopes value.references
  | .print value => visitsAt sites scopes value.references
  | .varDecl name initializer =>
    visitsAt sites (declareName name.lexeme scopes) (Expr.referencesOption initializer)
  | .block body => Stmt.visitsAll (.block body :: sites) ([] :: scopes) body
  | .ifThen condition thenBranch =>
    visitsAt sites scopes condition.references ++ thenBranch.visits sites scopes
  | .ifElse condition thenBranch elseBranch =>
    visitsAt sites scopes condition.references ++ thenBranch.visits sites scopes ++
      elseBranch.visits sites (thenBranch.after scopes)
  | .whileLoop condition body =>
    visitsAt sites scopes condition.references ++ body.visits sites scopes
  | .funDecl declaration => declaration.visits sites (bindName declaration.name.lexeme scopes)
  | .returnStmt _ value => visitsAt sites scopes (Expr.referencesOption value)
  | .classDecl name superclass methods =>
    let declared := bindName name.lexeme scopes
    match superclass with
    | some e =>
      visitsAt sites declared e.references ++
        FunctionDecl.visitsAll (.this methods :: .super methods :: sites)
          (receiverFrame :: superclassFrame :: declared) methods
    | none =>
      FunctionDecl.visitsAll (.this methods :: sites) (receiverFrame :: declared) methods

/-- The visits of statements, each in the scopes that those before it left. -/
def Stmt.visitsAll (sites : List Site) (scopes : List Frame) : List Stmt → List Visit
  | [] => []
  | s :: ss => s.visits sites scopes ++ Stmt.visitsAll sites (s.after scopes) ss

/-- The visits of a body, whose scope holds the parameters. -/
def FunctionDecl.visits (sites : List Site) (scopes : List Frame) : FunctionDecl → List Visit
  | ⟨name, parameters, body⟩ =>
    Stmt.visitsAll (.body ⟨name, parameters, body⟩ :: sites)
      (bindNames (parameters.map Token.lexeme) ([] :: scopes)) body

/-- The visits of functions that lie in one scope. -/
def FunctionDecl.visitsAll (sites : List Site) (scopes : List Frame) :
    List FunctionDecl → List Visit
  | [] => []
  | f :: fs => f.visits sites scopes ++ FunctionDecl.visitsAll sites scopes fs

end

/-! ## Visits and references -/

@[simp] theorem reference_visitsAt (sites : List Site) (scopes : List Frame)
    (rs : List Reference) : (visitsAt sites scopes rs).map Visit.reference = rs := by
  simp [visitsAt, Function.comp_def]

theorem mem_visitsAt {sites : List Site} {scopes : List Frame} {rs : List Reference} {v : Visit} :
    v ∈ visitsAt sites scopes rs ↔
      v.reference ∈ rs ∧ v.sites = sites ∧ v.scopes = scopes := by
  obtain ⟨reference, s, Γ⟩ := v
  simp only [visitsAt, List.mem_map, Visit.mk.injEq]
  constructor
  · rintro ⟨r, hr, rfl, rfl, rfl⟩
    exact ⟨hr, rfl, rfl⟩
  · rintro ⟨hr, rfl, rfl⟩
    exact ⟨reference, hr, rfl, rfl, rfl⟩

theorem mem_visitsAt_of_mem {sites : List Site} {scopes : List Frame} {rs : List Reference}
    {r : Reference} (h : r ∈ rs) : Visit.mk r sites scopes ∈ visitsAt sites scopes rs :=
  mem_visitsAt.2 ⟨h, rfl, rfl⟩

mutual

/-- Every reference is met once, in reading order. -/
theorem Stmt.reference_visits (sites : List Site) (scopes : List Frame) (s : Stmt) :
    (s.visits sites scopes).map Visit.reference = s.references := by
  match s with
  | .expression _ | .print _ | .varDecl _ _ | .returnStmt _ _ =>
    exact reference_visitsAt ..
  | .block body => exact Stmt.reference_visitsAll _ _ body
  | .ifThen condition thenBranch =>
    simp [Stmt.visits, Stmt.reference_visits _ _ thenBranch]
  | .ifElse condition thenBranch elseBranch =>
    simp [Stmt.visits, Stmt.reference_visits _ _ thenBranch,
      Stmt.reference_visits _ _ elseBranch]
  | .whileLoop condition body => simp [Stmt.visits, Stmt.reference_visits _ _ body]
  | .funDecl declaration => exact FunctionDecl.reference_visits _ _ declaration
  | .classDecl name (some e) methods =>
    simp [Stmt.visits, FunctionDecl.reference_visitsAll _ _ methods]
  | .classDecl name none methods =>
    simp [Stmt.visits, FunctionDecl.reference_visitsAll _ _ methods]

theorem Stmt.reference_visitsAll (sites : List Site) (scopes : List Frame) (ss : List Stmt) :
    (Stmt.visitsAll sites scopes ss).map Visit.reference = references ss := by
  match ss with
  | [] => rfl
  | s :: ss =>
    simp [Stmt.visitsAll, Stmt.reference_visits _ _ s, Stmt.reference_visitsAll _ _ ss]

theorem FunctionDecl.reference_visits (sites : List Site) (scopes : List Frame)
    (f : FunctionDecl) : (f.visits sites scopes).map Visit.reference = f.references := by
  match f with
  | ⟨name, parameters, body⟩ => exact Stmt.reference_visitsAll _ _ body

theorem FunctionDecl.reference_visitsAll (sites : List Site) (scopes : List Frame)
    (fs : List FunctionDecl) :
    (FunctionDecl.visitsAll sites scopes fs).map Visit.reference =
      FunctionDecl.referencesAll fs := by
  match fs with
  | [] => rfl
  | f :: fs =>
    simp [FunctionDecl.visitsAll, FunctionDecl.reference_visits _ _ f,
      FunctionDecl.reference_visitsAll _ _ fs]

end

end ClassScript
