import OscHost.Proofs.FirstSteps
import OscHost.Proofs.Loading
/-!
  What scripts send.

  A call of `osc.send` goes through the library, which reads its arguments and passes on those that
  can cross the boundary, and through the transport, which gives a number the type declared for its
  address.  `messageOf` says of the arguments themselves which message a call is for, if any, given
  the types known at that moment, and `sendAnswer_cases` that a call does this and nothing else: it
  hands over that message and says true, or it hands over nothing and says false and why.

  Over a whole life (`Life`) types are declared, the other end of the transport goes away, scripts
  send and the host does other things, in any order.  A `Ledger` is what the other end may see of
  it, and every life has one (`Life.has_ledger`).
-/

namespace OscHost.Osc

/-! ## Declared types -/

/-- The types known for addresses. -/
abbrev Types := String → Option EndpointType

/-- The types known after some more are declared: for each address the one declared last. -/
def Types.after (types : Types) (defs : List (String × EndpointType)) : Types := fun address =>
  ((defs.reverse.find? fun d => d.1 == address).map (·.2)).or (types address)

namespace Registry

theorem find?_declareIn (address : String) (type : EndpointType) (a : String)
    (entries : List (String × EndpointType)) :
    ((declareIn address type entries).find? fun e => e.1 == a).map (·.2) =
      if address = a then some type else (entries.find? fun e => e.1 == a).map (·.2) := by
  -- the declaration replaces the first entry of its address or comes last
  induction entries with
  | nil => by_cases ha : address = a <;> simp [declareIn, ha]
  | cons e entries ih =>
    unfold declareIn
    by_cases ha : address = a
    · rw [if_pos ha] at ih ⊢
      split
      · simp [ha]
      · rename_i he
        rw [List.find?_cons_of_neg (by simpa [← ha] using he), ih]
    · rw [if_neg ha] at ih ⊢
      split
      · rename_i he
        have hea : e.1 ≠ a := fun h => ha (he.symm.trans h)
        simp [ha, hea]
      · by_cases hea : e.1 = a
        · simp [hea]
        · simpa [hea] using ih

theorem get?_extend (r : Registry) (defs : List (String × EndpointType)) :
    (r.extend defs).get? = Types.after r.get? defs := by
  induction defs generalizing r with
  | nil => rfl
  | cons d defs ih =>
    funext a
    show ((r.declare d.1 d.2).extend defs).get? a = _
    rw [ih]
    unfold Types.after
    have hd : (r.declare d.1 d.2).get? a = if d.1 = a then some d.2 else r.get? a :=
      find?_declareIn ..
    rw [List.reverse_cons, List.find?_append, hd]
    rcases hlast : defs.reverse.find? (fun d => d.1 == a) with _ | e
    · by_cases ha : d.1 = a <;> simp [hlast, ha]
    · simp [hlast]

end Registry

end OscHost.Osc

namespace OscHost.Script

open Library Osc

/-! ## The message of a call -/

/-- The argument of the message for one value. -/
def argOf (types : Types) (address : String) : Value → Except SendError Arg
  | .bool b => .ok (.bool b)
  | .int n => resolveNumber address (Number.ofWord n) (types address)
  | .float x => resolveNumber address x (types address)
  | .nan _ => resolveNumber address Value.notNumber (types address)
  | .string s => .ok (.string (Text.Utf8.lossy s))
  | _ => .ok .nil

/-- The message that a call with some arguments is for. -/
def messageOf (types : Types) : List Value → Option Message
  | [.string address] => some ⟨Text.Utf8.lossy address, .nil⟩
  | [.string address, v] =>
    (argOf types (Text.Utf8.lossy address) v).toOption.map (⟨Text.Utf8.lossy address, ·⟩)
  | _ => none

/-- The values of a call as the transport gets them. -/
def crossing (h : Heap) (values : List Value) : List BoundaryValue :=
  (values.map (HostApi.lossyBoundary h)).map (·.value)

theorem dispatch_one (t : Transport) (address : String) (h : Heap) (v : Value) :
    (t.dispatch address (crossing h [v])).value =
      (argOf t.registry.get? address v).bind (t.push address) := by
  cases v <;> rfl

/-- Whether a transport does what it should with the message of a call, if there is one: it takes
    the message as long as someone receives. -/
def Handles (t : Transport) (m? : Option Message) (r : Except SendError Transport) : Prop :=
  (∃ m, m? = some m ∧ t.connected = true ∧ r = .ok { t with sent := t.sent.push m }) ∨
    ((t.connected = false ∨ m? = none) ∧ ∃ e, r = .error e)

theorem handles_push (t : Transport) (m : Message) :
    Handles t (some m) (t.push m.address m.arg) := by
  unfold Transport.push
  split
  · next hc => exact .inl ⟨m, rfl, hc, rfl⟩
  · next hc => exact .inr ⟨.inl (Bool.eq_false_iff.mpr hc), _, rfl⟩

theorem handles_dispatch (t : Transport) (address : Bytes) (h : Heap) (values : List Value) :
    Handles t (messageOf t.registry.get? (.string address :: values))
      (t.dispatch (Text.Utf8.lossy address) (crossing h values)).value := by
  match values with
  | [] => exact handles_push t ⟨_, .nil⟩
  | [v] =>
    rw [dispatch_one, messageOf]
    rcases argOf t.registry.get? (Text.Utf8.lossy address) v with e | arg
    · exact .inr ⟨.inr rfl, e, rfl⟩
    · exact handles_push t ⟨_, arg⟩
  | v :: w :: rest =>
    have harity : ∀ a b cs, (t.dispatch (Text.Utf8.lossy address) (a :: b :: cs)).value =
        .error .arity := by
      intro a b cs
      cases a <;> rfl
    exact .inr ⟨.inr rfl, .arity, harity _ _ _⟩

/-! ## One call -/

variable {site : Site} {h : Heap} {s : Host}

theorem transport_records (rs : List LogRecord) (s : Host) :
    (s.records rs).transport = s.transport :=
  List.foldlRecOn (motive := fun s' : Host => s'.transport = s.transport) rs Host.record rfl
    fun _ hs _ _ => hs

theorem answered_logAll (rs : List LogRecord) (k : Unit → Heap → Action) :
    (HostApi.logAll rs site k h).answered s = (k () h).answered (s.records rs) := by
  induction rs generalizing s with
  | nil => rfl
  | cons r rs ih => exact ih

/-- What a call answers, and the host after it. -/
def sendAnswer (site : Site) (h : Heap) (args : List Value) (s : Host) : Action × Host :=
  ((invoke (.builtin .oscSend) args).action site h).answered s

/-- The answer to a call from the host's one. -/
def sendResults : Except String Unit → List Value
  | .ok () => [.bool true, .nil]
  | .error message => [.bool false, .text message]

/-- A call with an address tells what cannot cross and hands over the rest. -/
theorem sendAnswer_text (site : Site) (h : Heap) (address : Bytes) (values : List Value)
    (s : Host) :
    ∃ rs : List LogRecord, sendAnswer site h (.string address :: values) s =
      (.done (sendResults ((s.records rs).send (Text.Utf8.lossy address) (crossing h values)).1) h,
        ((s.records rs).send (Text.Utf8.lossy address) (crossing h values)).2) := by
  refine ⟨(values.map (HostApi.lossyBoundary h)).flatMap fun v => v.log,
    (answered_logAll _ _).trans ?_⟩
  generalize s.records _ = s'
  show (Action.ask (.send (Text.Utf8.lossy address) (crossing h values)) h _).answered s' = _
  rw [Action.answered_ask, Host.perform]
  rcases s'.send (Text.Utf8.lossy address) (crossing h values) with ⟨message | ⟨⟩, s''⟩
  · rfl
  · rfl

/-- What the host makes of a dispatch. -/
theorem send_of_dispatch (s : Host) (address : String) (values : List BoundaryValue) :
    (∀ t, (s.transport.dispatch address values).value = .ok t →
      (s.send address values).1 = .ok () ∧ (s.send address values).2.transport = t) ∧
    (∀ e, (s.transport.dispatch address values).value = .error e →
      (s.send address values).1 = .error e.message ∧
        (s.send address values).2.transport = s.transport) := by
  unfold Host.send
  dsimp only
  rcases (s.transport.dispatch address values).value with e | t
  · refine ⟨nofun, fun e' he => ?_⟩
    cases he
    exact ⟨rfl, transport_records _ s⟩
  · refine ⟨fun t' ht => ?_, nofun⟩
    cases ht
    exact ⟨rfl, rfl⟩

/-- A call hands its message over and answers true, or it hands nothing over and answers false with
    a text, because nobody receives or because there is no message.  The heap stays. -/
theorem sendAnswer_cases (site : Site) (h : Heap) (args : List Value) (s : Host) :
    (∃ m, messageOf s.transport.registry.get? args = some m ∧ s.transport.connected = true ∧
      (sendAnswer site h args s).1 = .done [.bool true, .nil] h ∧
      (sendAnswer site h args s).2.transport =
        { s.transport with sent := s.transport.sent.push m }) ∨
    ((s.transport.connected = false ∨ messageOf s.transport.registry.get? args = none) ∧
      (∃ text, (sendAnswer site h args s).1 = .done [.bool false, .text text] h) ∧
      (sendAnswer site h args s).2.transport = s.transport) := by
  match args with
  | [] => exact .inr ⟨.inr rfl, ⟨_, rfl⟩, rfl⟩
  | .string address :: values =>
    obtain ⟨rs, hanswer⟩ := sendAnswer_text site h address values s
    rw [hanswer, ← transport_records rs s]
    -- the records about the values come first and leave the transport alone
    generalize s.records rs = s'
    rcases handles_dispatch s'.transport address h values with ⟨m, hm, hc, hd⟩ | ⟨hwhy, e, hd⟩
    · obtain ⟨hresult, hafter⟩ := (send_of_dispatch s' _ _).1 _ hd
      exact .inl ⟨m, hm, hc, by rw [hresult]; rfl, hafter⟩
    · obtain ⟨hresult, hafter⟩ := (send_of_dispatch s' _ _).2 _ hd
      exact .inr ⟨hwhy, ⟨_, by rw [hresult]; rfl⟩, hafter⟩
  | .nil :: values | .bool _ :: values | .int _ :: values | .float _ :: values
  | .nan _ :: values | .table _ :: values | .closure _ :: values | .builtin _ :: values
  | .native _ :: values | .thread _ :: values | .object _ :: values | .mark _ :: values =>
    exact .inr ⟨.inr rfl, ⟨_, rfl⟩, rfl⟩

/-! ## Whole lives -/

/-- What happens to a host, as far as sending is concerned. -/
inductive Occurrence
  /-- Types are declared. -/
  | declared (defs : List (String × EndpointType))
  /-- The other end of the transport goes away. -/
  | closed
  /-- A script makes a call with some arguments, and this is what the call comes to. -/
  | called (args : List Value) (h : Heap) (answer : Action)
  /-- Something else. -/
  | elsewhere

/-- One occurrence. -/
inductive Occurs : Host → Occurrence → Host → Prop
  | declared (s : Host) (defs : List (String × EndpointType)) :
      Occurs s (.declared defs) { s with transport :=
        { s.transport with registry := s.transport.registry.extend defs } }
  | closed (s : Host) :
      Occurs s .closed { s with transport := { s.transport with connected := false } }
  | called (s : Host) (site : Site) (h : Heap) (args : List Value) :
      Occurs s (.called args h (sendAnswer site h args s).1) (sendAnswer site h args s).2
  | elsewhere {s s' : Host} (hs : s'.transport = s.transport) : Occurs s .elsewhere s'

/-- Some occurrences in turn. -/
inductive Life : Host → List Occurrence → Host → Prop
  | nil (s : Host) : Life s [] s
  | cons {s s₁ s₂ : Host} {o : Occurrence} {os : List Occurrence} (first : Occurs s o s₁)
      (rest : Life s₁ os s₂) : Life s (o :: os) s₂

/-- The messages that the other end gets from some occurrences, given the types known before and
    whether someone receives.  A call that answers true stands for exactly its message, and one that
    answers false for none; there is no other answer. -/
inductive Ledger : Types → (connected : Bool) → List Occurrence → List Message → Prop
  | nil (types : Types) (connected : Bool) : Ledger types connected [] []
  | declared {types connected defs os ms} (rest : Ledger (types.after defs) connected os ms) :
      Ledger types connected (.declared defs :: os) ms
  | closed {types connected os ms} (rest : Ledger types false os ms) :
      Ledger types connected (.closed :: os) ms
  | accepted {types args h m os ms} (message : messageOf types args = some m)
      (rest : Ledger types true os ms) :
      Ledger types true (.called args h (.done [.bool true, .nil] h) :: os) (m :: ms)
  | refused {types connected args h text os ms}
      (why : connected = false ∨ messageOf types args = none)
      (rest : Ledger types connected os ms) :
      Ledger types connected (.called args h (.done [.bool false, .text text] h) :: os) ms
  | elsewhere {types connected os ms} (rest : Ledger types connected os ms) :
      Ledger types connected (.elsewhere :: os) ms

/-- One occurrence adds to a ledger what it adds to the transport. -/
theorem Occurs.adds {s s' : Host} {o : Occurrence} (ho : Occurs s o s') : ∃ new : List Message,
    s'.transport.sent.toList = s.transport.sent.toList ++ new ∧
      ∀ os ms, Ledger s'.transport.registry.get? s'.transport.connected os ms →
        Ledger s.transport.registry.get? s.transport.connected (o :: os) (new ++ ms) := by
  cases ho with
  | declared defs =>
    refine ⟨[], (List.append_nil _).symm, fun os ms hl => .declared ?_⟩
    rw [← Registry.get?_extend]
    exact hl
  | closed => exact ⟨[], (List.append_nil _).symm, fun os ms hl => .closed hl⟩
  | elsewhere hs =>
    rw [hs]
    exact ⟨[], (List.append_nil _).symm, fun os ms hl => .elsewhere hl⟩
  | called site h args =>
    rcases sendAnswer_cases site h args s with
      ⟨m, hm, hc, hanswer, hafter⟩ | ⟨hwhy, ⟨text, hanswer⟩, hafter⟩
    · rw [hanswer, hafter, hc]
      exact ⟨[m], Array.toList_push, fun os ms hl => .accepted hm hl⟩
    · rw [hanswer, hafter]
      exact ⟨[], (List.append_nil _).symm, fun os ms hl => .refused hwhy hl⟩

/-- Whatever happens, the other end gets one message for each call that answered true, in order:
    that of the call, with the types declared last when it was made. -/
theorem Life.has_ledger {s s' : Host} {os : List Occurrence} (hl : Life s os s') :
    ∃ ms, s'.transport.sent.toList = s.transport.sent.toList ++ ms ∧
      Ledger s.transport.registry.get? s.transport.connected os ms := by
  induction hl with
  | nil s => exact ⟨[], (List.append_nil _).symm, .nil _ _⟩
  | cons first _ ih =>
    obtain ⟨new, hsent, hledger⟩ := first.adds
    obtain ⟨ms, hrest, hms⟩ := ih
    exact ⟨new ++ ms, by rw [hrest, hsent, List.append_assoc], hledger _ _ hms⟩

/-- A call, a declaration, the end of the other side and another call. -/
def sampleLife : List Occurrence :=
  [.called [.text "/a", .bool true] {} (.done [.bool true, .nil] {}), .declared [("/b", .int)],
    .closed, .called [.text "/b", .int 2] {} (.done [.bool false, .text "not connected"] {})]

theorem Life.has_ledger_sample : ∃ s', Life plainHost sampleLife s' ∧
    ∃ ms, s'.transport.sent.toList = [] ++ ms ∧
      Ledger plainHost.transport.registry.get? true sampleLife ms := by
  have hlife : Life plainHost sampleLife _ :=
    .cons (.called _ Machine.hostSite {} _) <|
      .cons (.declared _ _) <| .cons (.closed _) <|
        .cons (.called _ Machine.hostSite {} _) (.nil _)
  exact ⟨_, hlife, hlife.has_ledger⟩

end OscHost.Script
