import ClassScript.Proofs.Binding.Settled

set_option autoImplicit false

/-!
# What a program without faults declares

If the binding walk reports nothing, every name is new to the scope it is declared in, and no class
names itself as its superclass.
-/

namespace ClassScript

open Resolution

/-! ## Reports -/

/-- Between two states of the walk, faults were reported or not, but none was taken back. -/
def Reports (r r' : Resolution) : Prop :=
  ∃ ds, r'.faults.toList = r.faults.toList ++ ds

namespace Reports

variable {r r₁ r' : Resolution}

theorem refl (r : Resolution) : Reports r r := ⟨[], by simp⟩

theorem of_eq (h : r'.faults = r.faults) : Reports r r' := ⟨[], by simp [h]⟩

theorem trans (h : Reports r r₁) (k : Reports r₁ r') : Reports r r' := by
  obtain ⟨ds, hds⟩ := h
  obtain ⟨es, hes⟩ := k
  exact ⟨ds ++ es, by rw [hes, hds, List.append_assoc]⟩

/-- If nothing was reported in all, nothing was reported up to any point in between. -/
theorem silent (h : Reports r r₁) (k : Reports r₁ r') (all : r'.faults = r.faults) :
    r₁.faults = r.faults ∧ r'.faults = r₁.faults := by
  obtain ⟨ds, hds⟩ := h
  obtain ⟨es, hes⟩ := k
  have nothing : ds = [] ∧ es = [] := by
    rw [all, hds] at hes
    simpa using hes.symm
  have first : r₁.faults = r.faults := by
    rw [← Array.toList_inj, hds, nothing.1, List.append_nil]
  exact ⟨first, all.trans first.symm⟩

theorem enter (frame : Frame) : Reports r (r.enter frame) := of_eq rfl

theorem leave : Reports r r.leave := of_eq rfl

theorem reportIf (condition : Bool) (t : Token) (fault : BindingFault) :
    Reports r (r.reportIf condition t fault) :=
  (Settles.reportIf condition t fault).reported

theorem record (id : Nat) (t : Token) : Reports r (r.record id t) :=
  of_eq (faults_record ..)

theorem declare (t : Token) : Reports r (r.declare t) :=
  (Settles.declare t).reported

theorem define (t : Token) : Reports r (r.define t) :=
  (Settles.define t).reported

theorem bind (t : Token) : Reports r ((r.declare t).define t) :=
  (declare t).trans (define t)

theorem declareAll (ts : List Token) : Reports r (Resolution.declareAll ts r) :=
  (Settles.declareAll ts).reported

theorem checkSelfInheritance (t : Token) (e : Expr) :
    Reports r (Resolution.checkSelfInheritance t e r) :=
  (Settles.checkSelfInheritance t e).reported

end Reports

mutual

theorem Expr.reports (position : Position) (e : Expr) (r : Resolution) :
    Reports r (e.resolve position r) := by
  match e with
  | .constant _ => exact .refl r
  | .unary _ operand => exact Expr.reports position operand r
  | .binary left _ right | .logical left _ right =>
    exact (Expr.reports position left r).trans (Expr.reports position right _)
  | .grouping inner => exact Expr.reports position inner r
  | .name id token => exact (Reports.reportIf ..).trans (.record id token)
  | .assign id target value => exact (Expr.reports position value r).trans (.record id target)
  | .call callee _ arguments =>
    exact (Expr.reports position callee r).trans (Expr.reportsAll position arguments _)
  | .get object _ => exact Expr.reports position object r
  | .set object _ value =>
    exact (Expr.reports position value r).trans (Expr.reports position object _)
  | .this id keyword =>
    rw [Expr.resolve]
    split
    · exact ⟨[_], Array.toList_push⟩
    · exact .record id keyword
  | .super id keyword _ =>
    rw [Expr.resolve]
    refine Reports.trans ?_ (.record id keyword)
    split
    · exact ⟨[_], Array.toList_push⟩
    · exact ⟨[_], Array.toList_push⟩
    · exact .refl r

theorem Expr.reportsAll (position : Position) (es : List Expr) (r : Resolution) :
    Reports r (Expr.resolveAll position es r) := by
  match es with
  | [] => exact .refl r
  | e :: es => exact (Expr.reports position e r).trans (Expr.reportsAll position es _)

end

theorem Expr.reportsOption (position : Position) (e : Option Expr) (r : Resolution) :
    Reports r (Expr.resolveOption position e r) := by
  cases e with
  | none => exact .refl r
  | some e => exact Expr.reports position e r

mutual

theorem Stmt.reports (position : Position) (s : Stmt) (r : Resolution) :
    Reports r (s.resolve position r) := by
  match s with
  | .expression value | .print value => exact Expr.reports position value r
  | .varDecl name initializer =>
    exact ((Reports.declare name).trans (Expr.reportsOption position initializer _)).trans
      (.define name)
  | .block body =>
    exact ((Reports.enter []).trans (Stmt.reportsAll position body _)).trans .leave
  | .ifThen condition thenBranch =>
    exact (Expr.reports position condition r).trans (Stmt.reports position thenBranch _)
  | .ifElse condition thenBranch elseBranch =>
    exact ((Expr.reports position condition r).trans (Stmt.reports position thenBranch _)).trans
      (Stmt.reports position elseBranch _)
  | .whileLoop condition body =>
    exact (Expr.reports position condition r).trans (Stmt.reports position body _)
  | .funDecl declaration =>
    exact (Reports.bind declaration.name).trans (FunctionDecl.reports _ declaration _)
  | .returnStmt keyword none => exact .reportIf ..
  | .returnStmt keyword (some e) =>
    exact ((Reports.reportIf ..).trans (.reportIf ..)).trans (Expr.reports position e _)
  | .classDecl name none methods =>
    exact (((Reports.bind name).trans (.enter receiverFrame)).trans
      (FunctionDecl.reportsAll _ methods _)).trans .leave
  | .classDecl name (some e) methods =>
    exact ((((((Reports.bind name).trans (.checkSelfInheritance name e)).trans
      (Expr.reports position e _)).trans (.enter superclassFrame)).trans
        (.enter receiverFrame)).trans (FunctionDecl.reportsAll _ methods _)).trans
          (Reports.leave.trans .leave)

theorem Stmt.reportsAll (position : Position) (ss : List Stmt) (r : Resolution) :
    Reports r (Stmt.resolveAll position ss r) := by
  match ss with
  | [] => exact .refl r
  | s :: ss => exact (Stmt.reports position s r).trans (Stmt.reportsAll position ss _)

theorem FunctionDecl.reports (position : Position) (f : FunctionDecl) (r : Resolution) :
    Reports r (f.resolve position r) := by
  match f with
  | ⟨_, parameters, body⟩ =>
    exact (((Reports.enter []).trans (.declareAll parameters)).trans
      (Stmt.reportsAll position body _)).trans .leave

theorem FunctionDecl.reportsAll (position : Position) (fs : List FunctionDecl) (r : Resolution) :
    Reports r (FunctionDecl.resolveAll position fs r) := by
  match fs with
  | [] => exact .refl r
  | f :: fs => exact (FunctionDecl.reports _ f r).trans (FunctionDecl.reportsAll position fs _)

end

/-! ## Legal declarations -/

/-- Names that are declared one after the other and are all new to the innermost scope. -/
def AllNew : List String → List Frame → Prop
  | [], _ => True
  | name :: names, scopes => stageIn scopes name = none ∧ AllNew names (bindName name scopes)

mutual

/-- Everything that a statement declares is new to its scope, and no class is its own superclass. -/
def Stmt.DeclaresNew (scopes : List Frame) : Stmt → Prop
  | .varDecl name _ => stageIn scopes name.lexeme = none
  | .block body => Stmt.DeclaresNewAll ([] :: scopes) body
  | .ifThen _ thenBranch => thenBranch.DeclaresNew scopes
  | .ifElse _ thenBranch elseBranch =>
    thenBranch.DeclaresNew scopes ∧ elseBranch.DeclaresNew (thenBranch.after scopes)
  | .whileLoop _ body => body.DeclaresNew scopes
  | .funDecl declaration =>
    stageIn scopes declaration.name.lexeme = none ∧
    declaration.DeclaresNew (bindName declaration.name.lexeme scopes)
  | .classDecl name superclass methods =>
    stageIn scopes name.lexeme = none ∧
    match superclass with
    | some e => (∀ id t, e = .name id t → t.lexeme ≠ name.lexeme) ∧
      FunctionDecl.DeclaresNewAll (receiverFrame :: superclassFrame :: bindName name.lexeme scopes)
        methods
    | none => FunctionDecl.DeclaresNewAll (receiverFrame :: bindName name.lexeme scopes) methods
  | .expression _ => True
  | .print _ => True
  | .returnStmt _ _ => True

/-- So it is with statements, each in the scopes that those before it left. -/
def Stmt.DeclaresNewAll (scopes : List Frame) : List Stmt → Prop
  | [] => True
  | s :: ss => s.DeclaresNew scopes ∧ Stmt.DeclaresNewAll (s.after scopes) ss

/-- The parameters are new to the scope of the body, and so is what the body declares. -/
def FunctionDecl.DeclaresNew (scopes : List Frame) : FunctionDecl → Prop
  | ⟨_, parameters, body⟩ =>
    AllNew (parameters.map Token.lexeme) ([] :: scopes) ∧
    Stmt.DeclaresNewAll (bindNames (parameters.map Token.lexeme) ([] :: scopes)) body

/-- So it is with every one of the functions. -/
def FunctionDecl.DeclaresNewAll (scopes : List Frame) : List FunctionDecl → Prop
  | [] => True
  | f :: fs => f.DeclaresNew scopes ∧ FunctionDecl.DeclaresNewAll scopes fs

end

/-- A declaration that is not reported is new to its scope. -/
theorem stageIn_of_declare {r : Resolution} {t : Token} (h : (r.declare t).faults = r.faults) :
    stageIn r.scopes t.lexeme = none := by
  cases found : stageIn r.scopes t.lexeme with
  | none => rfl
  | some stage =>
    have seen : (r.stage? t.lexeme).isSome = true := by
      change (stageIn r.scopes t.lexeme).isSome = true
      rw [found]
      rfl
    rw [Resolution.declare, if_pos seen] at h
    exact absurd (congrArg Array.size h) (by simp [Resolution.report])

theorem allNew_of_declareAll {ts : List Token} {r : Resolution}
    (h : (Resolution.declareAll ts r).faults = r.faults) :
    AllNew (ts.map Token.lexeme) r.scopes := by
  induction ts generalizing r with
  | nil => trivial
  | cons t ts ih =>
    obtain ⟨first, rest⟩ := (Reports.bind t).silent (.declareAll ts) h
    obtain ⟨declared, -⟩ := (Reports.declare t).silent (.define t) first
    refine ⟨stageIn_of_declare declared, ?_⟩
    have others := ih rest
    rwa [scopes_bind] at others

/-- A superclass that is not reported is not the class itself. -/
theorem ne_of_checkSelfInheritance {name : Token} {e : Expr} {r : Resolution}
    (h : (Resolution.checkSelfInheritance name e r).faults = r.faults) (id : Nat) (t : Token)
    (he : e = .name id t) : t.lexeme ≠ name.lexeme := by
  subst he
  intro same
  change (r.reportIf (t.lexeme = name.lexeme) t .selfInheritance).faults = r.faults at h
  rw [same] at h
  exact absurd (congrArg Array.size h) (by simp [Resolution.reportIf, Resolution.report])

mutual

/-- A statement in which nothing is reported declares legally. -/
theorem Stmt.declaresNew_of_silent (position : Position) (s : Stmt) {r : Resolution}
    (h : (s.resolve position r).faults = r.faults) : s.DeclaresNew r.scopes := by
  match s with
  | .expression _ | .print _ | .returnStmt _ _ => trivial
  | .varDecl name initializer =>
    obtain ⟨first, -⟩ := (Reports.declare name).silent
      ((Expr.reportsOption position initializer _).trans (.define name)) h
    exact stageIn_of_declare first
  | .block body => exact Stmt.declaresNewAll_of_silent position body (r := r.enter []) h
  | .ifThen condition thenBranch =>
    obtain ⟨-, second⟩ := (Expr.reports position condition r).silent
      (Stmt.reports position thenBranch _) h
    have within := Stmt.declaresNew_of_silent position thenBranch second
    rwa [Expr.scopes_resolve] at within
  | .ifElse condition thenBranch elseBranch =>
    obtain ⟨-, rest⟩ := (Expr.reports position condition r).silent
      ((Stmt.reports position thenBranch _).trans (Stmt.reports position elseBranch _)) h
    obtain ⟨second, third⟩ := (Stmt.reports position thenBranch _).silent
      (Stmt.reports position elseBranch _) rest
    have first := Stmt.declaresNew_of_silent position thenBranch second
    have other := Stmt.declaresNew_of_silent position elseBranch third
    rw [Stmt.scopes_resolve, Expr.scopes_resolve] at other
    rw [Expr.scopes_resolve] at first
    exact ⟨first, other⟩
  | .whileLoop condition body =>
    obtain ⟨-, second⟩ := (Expr.reports position condition r).silent
      (Stmt.reports position body _) h
    have within := Stmt.declaresNew_of_silent position body second
    rwa [Expr.scopes_resolve] at within
  | .funDecl declaration =>
    obtain ⟨first, second⟩ := (Reports.bind declaration.name).silent
      (FunctionDecl.reports _ declaration _) h
    obtain ⟨declared, -⟩ := (Reports.declare declaration.name).silent (.define _) first
    have within := FunctionDecl.declaresNew_of_silent _ declaration second
    rw [scopes_bind] at within
    exact ⟨stageIn_of_declare declared, within⟩
  | .classDecl name none methods =>
    obtain ⟨first, second⟩ := (Reports.bind name).silent
      (((Reports.enter receiverFrame).trans (FunctionDecl.reportsAll
        { position with inClass := .rootClass } methods _)).trans .leave) h
    obtain ⟨declared, -⟩ := (Reports.declare name).silent (.define _) first
    have within := FunctionDecl.declaresNewAll_of_silent { position with inClass := .rootClass }
      methods (r := ((r.declare name).define name).enter receiverFrame) second
    have scopes : (((r.declare name).define name).enter receiverFrame).scopes =
        receiverFrame :: bindName name.lexeme r.scopes :=
      congrArg (receiverFrame :: ·) (scopes_bind r name)
    rw [scopes] at within
    exact ⟨stageIn_of_declare declared, within⟩
  | .classDecl name (some e) methods =>
    change (FunctionDecl.resolveAll { position with inClass := .subclass } methods
      ((enter (e.resolve position (checkSelfInheritance name e
        ((r.declare name).define name))) superclassFrame).enter receiverFrame)).faults = _ at h
    obtain ⟨first, rest⟩ := (Reports.bind name).silent
      ((((Reports.checkSelfInheritance name e).trans (Expr.reports position e _)).trans
        ((Reports.enter superclassFrame).trans (.enter receiverFrame))).trans
          (FunctionDecl.reportsAll _ methods _)) h
    obtain ⟨declared, -⟩ := (Reports.declare name).silent (.define _) first
    obtain ⟨checked, rest⟩ := (Reports.checkSelfInheritance name e).silent
      (((Expr.reports position e _).trans
        ((Reports.enter superclassFrame).trans (.enter receiverFrame))).trans
          (FunctionDecl.reportsAll _ methods _)) rest
    obtain ⟨-, members⟩ := ((Expr.reports position e _).trans
      ((Reports.enter superclassFrame).trans (.enter receiverFrame))).silent
        (FunctionDecl.reportsAll _ methods _) rest
    have within := FunctionDecl.declaresNewAll_of_silent _ methods members
    have scopes : ((enter (e.resolve position (checkSelfInheritance name e
        ((r.declare name).define name))) superclassFrame).enter receiverFrame).scopes =
        receiverFrame :: superclassFrame :: bindName name.lexeme r.scopes := by
      refine congrArg (receiverFrame :: superclassFrame :: ·) ?_
      rw [Expr.scopes_resolve, scopes_checkSelfInheritance, scopes_bind]
    rw [scopes] at within
    exact ⟨stageIn_of_declare declared, ne_of_checkSelfInheritance checked, within⟩

theorem Stmt.declaresNewAll_of_silent (position : Position) (ss : List Stmt) {r : Resolution}
    (h : (Stmt.resolveAll position ss r).faults = r.faults) :
    Stmt.DeclaresNewAll r.scopes ss := by
  match ss with
  | [] => trivial
  | s :: ss =>
    obtain ⟨first, second⟩ := (Stmt.reports position s r).silent
      (Stmt.reportsAll position ss _) h
    have others := Stmt.declaresNewAll_of_silent position ss second
    rw [Stmt.scopes_resolve] at others
    exact ⟨Stmt.declaresNew_of_silent position s first, others⟩

theorem FunctionDecl.declaresNew_of_silent (position : Position) (f : FunctionDecl)
    {r : Resolution} (h : (f.resolve position r).faults = r.faults) :
    f.DeclaresNew r.scopes := by
  match f with
  | ⟨name, parameters, body⟩ =>
    obtain ⟨first, second⟩ := ((Reports.enter []).trans (.declareAll parameters)).silent
      ((Stmt.reportsAll position body _).trans .leave) h
    have within := Stmt.declaresNewAll_of_silent position body second
    rw [scopes_declareAll] at within
    exact ⟨allNew_of_declareAll (r := r.enter []) first, within⟩

theorem FunctionDecl.declaresNewAll_of_silent (position : Position) (fs : List FunctionDecl)
    {r : Resolution} (h : (FunctionDecl.resolveAll position fs r).faults = r.faults) :
    FunctionDecl.DeclaresNewAll r.scopes fs := by
  match fs with
  | [] => trivial
  | f :: fs =>
    obtain ⟨first, second⟩ := (FunctionDecl.reports _ f r).silent
      (FunctionDecl.reportsAll position fs _) h
    have others := FunctionDecl.declaresNewAll_of_silent position fs second
    rw [FunctionDecl.scopes_resolve] at others
    exact ⟨FunctionDecl.declaresNew_of_silent _ f first, others⟩

end

/-- A program without faults declares legally. -/
theorem declaresNew_of_resolve {program : List Stmt} {distances : Distances}
    (h : (resolve program distances).2 = []) : Stmt.DeclaresNewAll [] program := by
  refine Stmt.declaresNewAll_of_silent .top program
    (r := { scopes := [], distances, faults := #[] }) ?_
  exact Array.toList_inj.1 (by simpa [resolve] using h)

end ClassScript
