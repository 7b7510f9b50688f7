import ClassScript.Proofs.Grammar.Reading
import ClassScript.Proofs.Grammar.Starts

set_option autoImplicit false

/-!
# What is left by a step

The counterpart of `Sound`: `Leaves d p c rest Q` says that the step `p`, started in the state `c`,
does succeed, that it leaves exactly the tokens `rest`, and that what it yields has the property `Q`.
As with `Sound` there is one rule for each way to put a step together.
-/

namespace ClassScript.Parser

open Grammar

variable {d : Dialect} {α β : Type}

/-! ## Where a step leaves off -/

/-- From one state to the other nothing was reported that the dialect does not tolerate. -/
def Spared (d : Dialect) (c c' : Cursor) : Prop :=
  ∃ ds, c'.faults.toList = c.faults.toList ++ ds ∧ ∀ x ∈ ds, d.Tolerates x

theorem Spared.of_eq {c c' : Cursor} (h : c'.faults = c.faults) : Spared d c c' :=
  ⟨[], by simp [h], by simp⟩

theorem Spared.trans {c c₁ c₂ : Cursor} (h : Spared d c c₁) (k : Spared d c₁ c₂) :
    Spared d c c₂ := by
  obtain ⟨ds, hds, hd⟩ := h
  obtain ⟨es, hes, he⟩ := k
  refine ⟨ds ++ es, by rw [hes, hds, List.append_assoc], fun x hx => ?_⟩
  exact (List.mem_append.1 hx).elim (hd x) (he x)

/-- Started in `c`, the step succeeds, leaves exactly `rest` and yields something with `Q`. -/
def Leaves (d : Dialect) (p : Parser α) (c : Cursor) (rest : List Token) (Q : α → Prop) : Prop :=
  ∃ a c', p c = .ok a c' ∧ c'.rest = rest ∧ Spared d c c' ∧ Q a

namespace Leaves

variable {c : Cursor} {rest rest' : List Token} {Q : α → Prop} {R : β → Prop}

protected theorem pure {a : α} (hc : c.rest = rest) (h : Q a) : Leaves d (pure a) c rest Q :=
  ⟨a, c, rfl, hc, .of_eq rfl, h⟩

protected theorem bind {p : Parser α} {f : α → Parser β} (hp : Leaves d p c rest Q)
    (hf : ∀ a c', c'.rest = rest → Q a → Leaves d (f a) c' rest' R) :
    Leaves d (p >>= f) c rest' R := by
  obtain ⟨a, c₁, h₁, hrest, spared₁, ha⟩ := hp
  obtain ⟨b, c₂, h₂, hrest', spared₂, hb⟩ := hf a c₁ hrest ha
  exact ⟨b, c₂, bind_eq_ok.2 ⟨a, c₁, h₁, h₂⟩, hrest', spared₁.trans spared₂, hb⟩

theorem bind_pure {p : Parser α} {f : α → β} (hp : Leaves d p c rest Q)
    (hf : ∀ a, Q a → R (f a)) : Leaves d (p >>= fun a => Pure.pure (f a)) c rest R :=
  hp.bind fun a _ hc ha => Leaves.pure hc (hf a ha)

theorem map {p : Parser α} {f : α → β} (hp : Leaves d p c rest Q) (hf : ∀ a, Q a → R (f a)) :
    Leaves d (f <$> p) c rest R := by
  rw [map_eq_pure_bind]
  exact hp.bind_pure hf

/-- A step that goes on as another one does from a later state. -/
theorem of_spared {p : Parser α} {c₁ : Cursor} (h : Leaves d p c₁ rest Q) (hs : Spared d c c₁)
    {q : Parser α} (e : q c = p c₁) : Leaves d q c rest Q := by
  obtain ⟨a, c', hp, hrest, spared, ha⟩ := h
  exact ⟨a, c', e.trans hp, hrest, hs.trans spared, ha⟩

theorem acceptAny?_bind {kinds : List TokenKind} {f : Option Token → Parser β} {t : Token}
    (hc : c.rest = t :: rest) (ht : t.kind ∈ kinds)
    (hf : ∀ c', c'.rest = rest → Leaves d (f (some t)) c' rest' R) :
    Leaves d (acceptAny? kinds >>= f) c rest' R :=
  (Leaves.bind (Q := fun a => a = some t) ⟨_, _, acceptAny?_of_mem hc ht, rfl, .of_eq rfl, rfl⟩)
    fun _ c' hc' ha => ha ▸ hf c' hc'

theorem acceptAny?_skip {kinds : List TokenKind} {f : Option Token → Parser β}
    (stops : Stops kinds c.rest) (hf : Leaves d (f none) c rest' R) :
    Leaves d (acceptAny? kinds >>= f) c rest' R :=
  hf.of_spared (.of_eq rfl) (by
    change EStateM.bind _ _ _ = _
    rw [EStateM.bind, acceptAny?_of_stops stops])

theorem accept?_bind {kind : TokenKind} {f : Option Token → Parser β} {t : Token}
    (hc : c.rest = t :: rest) (ht : t.kind = kind)
    (hf : ∀ c', c'.rest = rest → Leaves d (f (some t)) c' rest' R) :
    Leaves d (accept? kind >>= f) c rest' R :=
  acceptAny?_bind hc (by simp [ht]) hf

theorem accept?_skip {kind : TokenKind} {f : Option Token → Parser β}
    (stops : Stops [kind] c.rest) (hf : Leaves d (f none) c rest' R) :
    Leaves d (accept? kind >>= f) c rest' R :=
  acceptAny?_skip stops hf

theorem accept_bind {kind : TokenKind} {f : Bool → Parser β} {t : Token}
    (hc : c.rest = t :: rest) (ht : t.kind = kind)
    (hf : ∀ c', c'.rest = rest → Leaves d (f true) c' rest' R) :
    Leaves d (accept kind >>= f) c rest' R := by
  rw [accept, bind_assoc]
  exact accept?_bind hc ht fun c' hc' => by simpa using hf c' hc'

theorem accept_skip {kind : TokenKind} {f : Bool → Parser β} (stops : Stops [kind] c.rest)
    (hf : Leaves d (f false) c rest' R) : Leaves d (accept kind >>= f) c rest' R := by
  rw [accept, bind_assoc]
  exact accept?_skip stops (by simpa using hf)

theorem expect_bind {kind : TokenKind} {what : Expected} {f : Token → Parser β} {t : Token}
    (hc : c.rest = t :: rest) (ht : t.kind = kind)
    (hf : ∀ c', c'.rest = rest → Leaves d (f t) c' rest' R) :
    Leaves d (expect kind what >>= f) c rest' R := by
  rw [expect, bind_assoc]
  exact accept?_bind hc ht fun c' hc' => by simpa using hf c' hc'

theorem check_bind {kind : TokenKind} {f : Bool → Parser β} {t : Token}
    (hc : c.rest = t :: rest) (ht : t.kind = kind) (hf : Leaves d (f true) c rest' R) :
    Leaves d (check kind >>= f) c rest' R :=
  hf.of_spared (.of_eq rfl) (by
    change f (c.rest.head?.any fun t => t.kind = kind) c = _
    simp [hc, ht])

theorem check_skip {kind : TokenKind} {f : Bool → Parser β} (stops : Stops [kind] c.rest)
    (hf : Leaves d (f false) c rest' R) : Leaves d (check kind >>= f) c rest' R :=
  hf.of_spared (.of_eq rfl) (by
    change f (c.rest.head?.any fun t => t.kind = kind) c = _
    cases h : c.rest with
    | nil => rfl
    | cons t rest =>
      have : t.kind ≠ kind := by simpa [h] using stops t
      simp [this])

theorem peek_bind {f : Token → Parser β} {t : Token} {us : List Token} (hc : c.rest = t :: us)
    (hf : Leaves d (f t) c rest' R) : Leaves d (peek >>= f) c rest' R :=
  hf.of_spared (.of_eq rfl) (by
    change f (c.rest.head?.getD c.closing) c = _
    simp [hc])

theorem get_bind {f : Cursor → Parser β} (hf : Leaves d (f c) c rest' R) :
    Leaves d (get >>= f) c rest' R :=
  hf.of_spared (.of_eq rfl) rfl

theorem atEnd_bind {f : Bool → Parser β} (hc : c.rest = []) (hf : Leaves d (f true) c rest' R) :
    Leaves d (atEnd >>= f) c rest' R :=
  hf.of_spared (.of_eq rfl) (by
    change f c.rest.isEmpty c = _
    rw [hc]
    rfl)

theorem atEnd_skip {f : Bool → Parser β} {t : Token} {us : List Token} (hc : c.rest = t :: us)
    (hf : Leaves d (f false) c rest' R) : Leaves d (atEnd >>= f) c rest' R :=
  hf.of_spared (.of_eq rfl) (by
    change f c.rest.isEmpty c = _
    rw [hc]
    rfl)

theorem freshId_bind {f : Nat → Parser β} (hc : c.rest = rest)
    (hf : ∀ n c', c'.rest = rest → Leaves d (f n) c' rest' R) :
    Leaves d (freshId >>= f) c rest' R := by
  have head : Leaves d freshId c rest fun _ => True :=
    ⟨c.nextId, { c with nextId := c.nextId + 1 }, rfl, hc, .of_eq rfl, trivial⟩
  exact head.bind fun n c' hc' _ => hf n c' hc'

theorem report_bind {t : Token} {fault : GrammarFault} {f : Unit → Parser β} (hc : c.rest = rest)
    (ht : d.Tolerates (.grammar t fault))
    (hf : ∀ c', c'.rest = rest → Leaves d (f ()) c' rest' R) :
    Leaves d (report t fault >>= f) c rest' R := by
  have head : Leaves d (report t fault) c rest fun _ => True :=
    ⟨(), { c with faults := c.faults.push (.grammar t fault) }, rfl, hc,
      ⟨[.grammar t fault], by simp, by simpa using ht⟩, trivial⟩
  exact head.bind fun _ c' hc' _ => hf c' hc'

/-- A step that succeeds has nothing to recover from. -/
protected theorem recovering {p : Parser α} (h : Leaves d p c rest Q) :
    Leaves d (recovering p) c rest fun a => ∃ b, a = some b ∧ Q b := by
  obtain ⟨b, c', hp, hrest, spared, hb⟩ := h
  exact ⟨some b, c', by simp [Parser.recovering, hp], hrest, spared, b, rfl, hb⟩

end Leaves

/-! ## What may come next -/

theorem stops_cons {kinds : List TokenKind} {t : Token} {rest : List Token}
    (h : t.kind ∉ kinds) : Stops kinds (t :: rest) := by
  simpa [Stops] using h

theorem stops_nil {kinds : List TokenKind} : Stops kinds [] := by
  simp [Stops]

theorem Stops.mono {kinds fewer : List TokenKind} {rest : List Token} (h : Stops kinds rest)
    (sub : fewer ⊆ kinds) : Stops fewer rest :=
  fun t ht mem => h t ht (sub mem)

theorem stops_of_kind {kinds : List TokenKind} {k : TokenKind} {t : Token} {rest : List Token}
    (ht : t.kind = k) (other : k ∉ kinds) : Stops kinds (t :: rest) :=
  stops_cons (ht ▸ other)

/-- A phrase that starts with other kinds. -/
theorem stops_of_startsWith {starts kinds : List TokenKind}
    {ts : List Token} (h : StartsWith starts ts) (apart : ∀ k ∈ starts, k ∉ kinds)
    (rest : List Token) : Stops kinds (ts ++ rest) := by
  obtain ⟨t, us, rfl, ht⟩ := h
  exact stops_cons (apart _ ht)

/-- A token of another kind comes next. -/
theorem stops_at {kinds : List TokenKind} {k : TokenKind} {c : Cursor} {t : Token}
    {us : List Token} (hc : c.rest = t :: us) (ht : t.kind = k) (other : k ∉ kinds) :
    Stops kinds c.rest := by
  rw [hc]
  exact stops_of_kind ht other

/-- A phrase comes next that starts with other kinds. -/
theorem stops_at_start {starts kinds : List TokenKind} {c : Cursor} {ts rest : List Token}
    (hc : c.rest = ts ++ rest) (h : StartsWith starts ts) (apart : ∀ k ∈ starts, k ∉ kinds) :
    Stops kinds c.rest := by
  rw [hc]
  exact stops_of_startsWith h apart rest

end ClassScript.Parser
