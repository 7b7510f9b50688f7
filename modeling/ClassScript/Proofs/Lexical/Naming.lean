import ClassScript.Proofs.Lexical.Actions

set_option autoImplicit false

/-!
# Names that follow each other

Reading, assigning and declaring names, and the methods and classes that keep the scopes or the map
they were declared in.
-/

namespace ClassScript

open Lexical (Environment Memory Run)

variable {W : World} {c : Twin} {sites : List Site} {frames : List Frame} {env : Environment}
  {r : Reference} {v w : Value} {name : String}

/-- Where statements are executed: the scopes are laid out, and the innermost one has just the names
of its frame. -/
structure Twin.Stands (W : World) (c : Twin) (sites : List Site) (frames : List Frame)
    (env : Environment) : Prop where
  laid : Laid (c.view W) sites frames c.state.current env
  names : Exact c.state.scopes frames c.state.current

namespace Twin.Matched

/-- The value of a local name, on either side. -/
theorem local_value (m : c.Matched W) {f d : Nat} (laid : Laid (c.view W) sites frames f env)
    (hd : distance? name frames = some d) :
    ∃ v w, c.state.scopes.getAt? f d name = some v ∧ c.memory.value? env name = some w ∧
      v.Fits name ∧ SameValue (c.view W) v w := by
  obtain ⟨g, v, location, w, up, -, hv, fits, -, he, hw, same⟩ := m.found laid hd
  refine ⟨v, w, ?_, ?_, fits, same⟩
  · simp [Scopes.getAt?, up, hv]
  · simp [Memory.value?, he, hw]

/-- The value of a name that is not local, on either side. -/
theorem global_value (m : c.Matched W) {f : Nat} (laid : Laid (c.view W) sites frames f env)
    (hd : distance? name frames = none) :
    Option.Rel (SameValue (c.view W)) (c.state.scopes.get? globalScope name)
      (c.memory.value? env name) := by
  have globals := m.globals name
  rw [m.get?_globalScope]
  simpa [Memory.value?, laid.missing hd] using globals

/-- The owner of a local name that is assigned, unless the name is just being declared. -/
theorem ownerAt?_of_assign (m : c.Matched W) (laid : Laid (c.view W) sites frames c.state.current env)
    (h : Refers (c.view W) sites frames c.state.current r) {d : Nat}
    (recorded : c.state.distances.get? r.id = some d) :
    ∃ seen, W.visited ⟨r, sites, seen⟩ ∧ distance? r.token.lexeme seen = some d ∧
      ((stageIn seen r.token.lexeme ≠ some .declared ∧
          ∃ g location v w, c.state.scopes.ancestor? d c.state.current = some g ∧
            g ≠ globalScope ∧ c.state.scopes.local? g r.token.lexeme = some v ∧
            c.place g r.token.lexeme = some location ∧
            env.location? r.token.lexeme = some location ∧
            c.memory.cells[location]? = some w) ∨
        (stageIn seen r.token.lexeme = some .declared ∧
          c.state.scopes.ownerAt? c.state.current d r.token.lexeme = none)) := by
  obtain ⟨seen, visited, -, regular⟩ := h
  obtain ⟨-, -, hd⟩ := m.settled _ visited
  have here : distance? r.token.lexeme seen = some d := hd.symm.trans recorded
  refine ⟨seen, visited, here, regular.imp (fun regular => ?_) fun unborn => ?_⟩
  · rw [regular.2] at here
    obtain ⟨g, v, location, w, up, inside, hv, -, hl, he, hw, -⟩ := m.found laid here
    exact ⟨regular.1, g, location, v, w, up, inside, hv, hl, he, hw⟩
  · obtain rfl : 0 = d := Option.some.inj ((distance?_of_stageIn unborn.1).symm.trans here)
    have absent : c.state.scopes.local? c.state.current r.token.lexeme = none := unborn.2.2
    exact ⟨unborn.1, by simp [Scopes.ownerAt?, Scopes.ancestor?, absent]⟩

end Twin.Matched

namespace Follows

/-! ## Reading and assigning -/

theorem lookUp (m : c.Matched W) (laid : Laid (c.view W) sites frames c.state.current env)
    (h : Refers (c.view W) sites frames c.state.current r) (reads : r.kind ≠ .assign) :
    Follows W none c (SameResult W) (Eval.lookUp r.id r.token) (Lexical.lookUp env r.token) := by
  have recorded := m.distance_of_reads h reads
  cases hd : distance? r.token.lexeme frames with
  | some d =>
    rw [hd] at recorded
    obtain ⟨v, w, hv, hw, -, same⟩ := m.local_value laid hd
    refine done v w ?_ ?_ m (.refl ..) same
    · simp [Eval.lookUp, recorded, hv]
    · simp [Lexical.lookUp, hw]
  | none =>
    rw [hd] at recorded
    obtain ⟨hv, hw⟩ | ⟨v, w, hv, hw, same⟩ := (m.global_value laid hd).both
    · refine stopped (.error ⟨.undefinedVariable r.token.lexeme, r.token.line⟩) ?_ ?_ m
      · simp [Eval.lookUp, recorded, hv]
      · simp [Lexical.lookUp, hw]
    · refine done v w ?_ ?_ m (.refl ..) same
      · simp [Eval.lookUp, recorded, hv]
      · simp [Lexical.lookUp, hw]

/-- A global that is there is given another value. -/
theorem assignGlobal (m : c.Matched W) {token : Token} (absent : env.location? token.lexeme = none)
    (fits : v.Fits token.lexeme) (same : SameValue (c.view W) v w) :
    Follows W none c (fun _ _ _ => True)
      (Eval.assignIn (c.state.scopes.owner? globalScope token.lexeme) token v)
      (Lexical.assign env token w) := by
  obtain ⟨hv, hw⟩ | ⟨u, x, hv, hw, -⟩ := (m.globals token.lexeme).both
  · refine stopped (.error ⟨.undefinedVariable token.lexeme, token.line⟩) ?_ ?_ m
    · simp [Eval.assignIn, m.owner?_globalScope, hv]
    · simp [Lexical.assign, absent, hw]
  · refine done () () ?_ ?_ (m.putGlobal fits same) (Twin.grown_putGlobal_of_present w fits hv)
      trivial
    · simp [Eval.assignIn, m.owner?_globalScope, hv, Twin.putGlobal]
    · simp [Lexical.assign, absent, hw, Twin.putGlobal]

/-- A local name that is there is given another value. -/
theorem assignLocal (m : c.Matched W) {token : Token} {g location : Nat} {u : Value}
    (present : c.state.scopes.local? g token.lexeme = some u)
    (place : c.place g token.lexeme = some location)
    (there : env.location? token.lexeme = some location) (fits : v.Fits token.lexeme)
    (same : SameValue (c.view W) v w) :
    Follows W none c (fun _ _ _ => True) (Eval.assignIn (some g) token v)
      (Lexical.assign env token w) := by
  refine done () () ?_ ?_ (m.store present place fits same) (Twin.grown_store present fits) trivial
  · simp [Eval.assignIn, Twin.store]
  · simp [Lexical.assign, there, Twin.store]

theorem assign (m : c.Matched W) (laid : Laid (c.view W) sites frames c.state.current env)
    (h : Refers (c.view W) sites frames c.state.current r) (assigns : r.kind = .assign)
    (same : SameValue (c.view W) v w) :
    Follows W none c (fun _ _ _ => True) (Eval.assign r.id r.token v)
      (Lexical.assign env r.token w) := by
  have fits : v.Fits r.token.lexeme := by
    obtain ⟨seen, visited, -⟩ := id h
    obtain ⟨-, spelled, -⟩ := m.settled _ visited
    have named : IsName r.token.lexeme := by simpa [Reference.Spelled, assigns] using spelled
    exact Value.fits_of_isName named v
  cases hd : c.state.distances.get? r.id with
  | some d =>
    obtain ⟨seen, visited, -, owners⟩ := m.ownerAt?_of_assign laid h hd
    rcases owners with ⟨-, g, location, u, x, up, inside, hu, hl, he, hx⟩ | ⟨unborn, absent⟩
    · have owner : c.state.scopes.ownerAt? c.state.current d r.token.lexeme = some g := by
        simp [Scopes.ownerAt?, up, hu]
      refine congr ?_ rfl (assignLocal m hu hl he fits same)
      simp [Eval.assign, hd, owner]
    · refine ⟨fun a σ run => ?_, fun i σ run => ?_⟩
      · simp [Eval.assign, Eval.assignIn, hd, absent] at run
      · obtain rfl : c.state = σ := by
          simp only [Eval.assign, Eval.assignIn, hd, absent, run_bind, run_get, run_fail] at run
          cases run
          rfl
        exact ⟨c, rfl, m, rfl, rfl, .inl ⟨_, visited, assigns, unborn⟩⟩
  | none =>
    have absent : env.location? r.token.lexeme = none := by
      obtain ⟨seen, visited, -, regular | unborn⟩ := h
      · obtain ⟨-, -, recorded⟩ := m.settled _ visited
        exact laid.missing (regular.2.symm.trans (recorded.symm.trans hd))
      · obtain ⟨-, -, recorded⟩ := m.settled _ visited
        have nowhere : distance? r.token.lexeme seen = none := recorded.symm.trans hd
        rw [distance?_of_stageIn unborn.1] at nowhere
        cases nowhere
    refine congr ?_ rfl (assignGlobal m absent fits same)
    simp [Eval.assign, hd]

/-! ## Declaring -/

end Follows

/-- A scope that is laid out within another is there and not that of the globals. -/
theorem Twin.Matched.inner (m : c.Matched W) {site : Site} {frame : Frame} {f : Nat}
    (laid : Laid (c.view W) (site :: sites) (frame :: frames) f env) :
    f ≠ globalScope ∧ f < c.state.scopes.size := by
  cases laid with
  | inside _ enclosed _ _ _ _ =>
    refine ⟨?_, Scopes.enclosing?_bound enclosed⟩
    rintro rfl
    exact absurd (m.rooted.outermost.symm.trans enclosed) (by simp)

/-- The scopes are laid out still when the innermost one has got a new name. -/
theorem Laid.declare (m : c.Matched W) {site : Site} {frame frame' : Frame} {f : Nat}
    (laid : Laid (c.view W) (site :: sites) (frame :: frames) f env)
    (absent : c.state.scopes.local? f name = none) (fits : v.Fits name)
    (lookup : ∀ other, frame'.lookup other =
      if other = name then some .defined else frame.lookup other) :
    Laid ((c.declare f name v w).view W) (site :: sites) (frame' :: frames) f
      (env.extend name c.memory.cells.size) :=
  (laid.mono (Twin.kept_declare m absent fits)).extend
    (Twin.local?_define_self (m.inner laid).2) fits (if_pos ⟨rfl, rfl⟩) lookup

theorem Exact.declare {frame frame' : Frame} {f : Nat}
    (names : Exact c.state.scopes (frame :: frames) f)
    (lookup : ∀ other, frame'.lookup other =
      if other = name then some .defined else frame.lookup other) :
    Exact (c.declare f name v w).state.scopes (frame' :: frames) f := by
  apply names.extend lookup
  intro other different missing
  change (c.state.scopes.define f name v).local? f other = none
  rw [Twin.local?_define_of_ne (fun h => different h.2)]
  exact missing

namespace Follows

/-- A name that is new to the innermost scope is declared. -/
theorem declare (m : c.Matched W) (stands : c.Stands W sites frames env) (named : IsName name)
    (new : stageIn frames name = none) (same : SameValue (c.view W) v w) :
    Follows W (some c.state.current) c
      (fun _ env' c' => c'.Stands W sites (bindName name frames) env' ∧
        ∃ u, c'.state.scopes.local? c'.state.current name = some u)
      (Eval.define name v) (Lexical.declare env name w) := by
  have fits := Value.fits_of_isName named v
  obtain ⟨laid, names⟩ := stands
  cases frames with
  | nil =>
    obtain ⟨here, rfl⟩ : c.state.current = globalScope ∧ env = .top := by
      generalize c.state.current = f at laid
      cases laid
      exact ⟨rfl, rfl⟩
    rw [here]
    refine done () .top ?_ rfl (m.putGlobal fits same) (Twin.grown_putGlobal W c w fits)
      ⟨⟨?_, fun nonempty => absurd rfl nonempty⟩, v, ?_⟩
    · simp [Eval.define, Twin.putGlobal, here]
    · exact laid.mono (Twin.kept_putGlobal W c w fits)
    · change (c.state.scopes.define globalScope name v).local? c.state.current name = some v
      rw [here]
      exact Twin.local?_define_self m.rooted.inhabited
  | cons frame frames =>
    obtain ⟨frame', bound, lookup⟩ := exists_bindName name frame frames
    have absent := names (List.cons_ne_nil _ _) name new
    have within : env.outermost = false := laid.outermost
    cases sites with
    | nil => exact absurd (laid.nil_iff.2 rfl) (List.cons_ne_nil _ _)
    | cons site sites =>
      obtain ⟨inside, size⟩ := m.inner laid
      refine done () (env.extend name c.memory.cells.size) ?_ ?_
        (m.declare inside size absent fits same) (Twin.grown_declare m absent fits) ⟨?_, v, ?_⟩
      · simp [Eval.define, Twin.declare]
      · simp [Lexical.declare, Lexical.extend, within, Twin.declare]
      · rw [bound]
        exact ⟨laid.declare m absent fits lookup, names.declare lookup⟩
      · exact Twin.local?_define_self size

/-- A name that was declared in the innermost scope is given another value. -/
theorem redefine (m : c.Matched W) {token : Token}
    (laid : Laid (c.view W) sites (bindName token.lexeme frames) c.state.current env)
    (present : ∃ u, c.state.scopes.local? c.state.current token.lexeme = some u)
    (named : IsName token.lexeme) (same : SameValue (c.view W) v w) :
    Follows W none c (fun _ _ _ => True) (Eval.define token.lexeme v)
      (Lexical.assign env token w) := by
  have fits := Value.fits_of_isName named v
  obtain ⟨u, hu⟩ := present
  cases frames with
  | nil =>
    have here : c.state.current = globalScope := by
      generalize c.state.current = f at laid
      cases laid
      rfl
    have absent : env.location? token.lexeme = none := laid.missing rfl
    rw [here] at hu
    refine congr ?_ rfl (assignGlobal m absent fits same)
    simp [m.owner?_globalScope, hu, Eval.assignIn, Eval.define, here]
  | cons frame frames =>
    obtain ⟨frame', bound, lookup⟩ := exists_bindName token.lexeme frame frames
    have found : distance? token.lexeme (bindName token.lexeme (frame :: frames)) = some 0 := by
      rw [bound, distance?, lookup, if_pos rfl]
      rfl
    obtain ⟨g, x, location, y, up, -, hx, -, hl, he, -, -⟩ := m.found laid found
    obtain rfl : c.state.current = g := Option.some.inj up
    refine congr ?_ rfl (assignLocal m hu hl he fits same)
    simp [Eval.assignIn, Eval.define]

end Follows

end ClassScript
