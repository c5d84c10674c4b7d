import Retouch.Proofs.Client.Pending
import Retouch.Proofs.Service.Answer

/-!
# What a client makes of a frame

The server may send anything. A frame that tells the result of an edit on the list marks this edit, and any other one
should leave the client as it is. So it does; but some frames end the connection: one whose values nest too deep to
be read, and results whose id is a list or an object, or whose error is something else than an object.

## Main statements

* `exists_readFrame_error_iff`: the frames for which the client has no answer.
* `after_takeFrame`: what a frame changes, if it changes anything.
* `survives_iff`: the client outlives all other frames, and what each frame changes is the edit that it names.
-/
namespace Retouch.Client

/-! ### Frames with results -/

/-- The value of a member, null if there is none. -/
def memberOf (members : Json.Members) (name : String) : Json := (members.lookup name).getD .null

/-- The frame holds the result of a transform. -/
def IsResult (frame : String) (result : Json.Members) : Prop :=
  Json.read frame = .ok (.obj result) ∧ result.lookup "type" = some (.str "transform-result")

/-- The frames for which the client has no answer. -/
inductive Fatal (frame : String) : Prop where
  | deep (e : Json.ReadError) (unread : Json.read frame = .error e) (deep : e.fault = .tooDeep)
  /-- The id of the edit is a list or an object. -/
  | id (result : Json.Members) (told : IsResult frame result) (named : (memberOf result "requestId").isTruthy = true)
    (compound : Service.IsCompound (memberOf result "requestId"))
  /-- The edit failed, and its error is no object. -/
  | error (result : Json.Members) (told : IsResult frame result) (named : (memberOf result "requestId").isTruthy = true)
    (failed : (memberOf result "success").isTruthy = false) (given : (memberOf result "error").isTruthy = true)
    (plain : ∀ members, memberOf result "error" ≠ .obj members)

/-- A verdict is found unless the edit failed with an error that is no object. -/
theorem verdictOf_eq_error_iff (result : Json.Members) : (∃ fault, verdictOf result = .error fault) ↔
    (memberOf result "success").isTruthy = false ∧ (memberOf result "error").isTruthy = true ∧
      ∀ members, memberOf result "error" ≠ .obj members := by
  unfold verdictOf errorMessage memberOf
  cases success : ((result.lookup "success").getD .null).isTruthy with
  | true => simp [pure, Except.pure]
  | false =>
    generalize (result.lookup "error").getD .null = error
    cases given : error.isTruthy with
    | false => simp [bind, Except.bind, pure, Except.pure]
    | true => cases error <;> simp_all [bind, Except.bind, pure, Except.pure]

theorem readResult_named {result : Json.Members} (named : (memberOf result "requestId").isTruthy = true) :
    readResult result = (do
      let verdict ← verdictOf result
      return (← namedEdit (memberOf result "requestId")).map (·, verdict)) := by
  unfold memberOf at named ⊢
  simp only [readResult, named, Bool.not_true, Bool.false_eq_true, if_false]

theorem readResult_unnamed {result : Json.Members} (unnamed : (memberOf result "requestId").isTruthy = false) :
    readResult result = .ok none := by
  unfold memberOf at unnamed
  simp only [readResult, unnamed, Bool.not_false, if_true]
  rfl

theorem readFrame_result {frame : String} {result : Json.Members} (told : IsResult frame result) :
    readFrame frame = readResult result := by
  unfold readFrame
  rw [told.1]
  simp only [Service.says_iff.mpr told.2, if_true]

/-- What is neither a result nor too deep says nothing of any edit. -/
theorem readFrame_other {frame : String} (shallow : ∀ e, Json.read frame = .error e → e.fault ≠ .tooDeep)
    (other : ∀ result, ¬IsResult frame result) : readFrame frame = .ok none := by
  unfold readFrame
  cases read : Json.read frame with
  | error e => simp [shallow e read]
  | ok value =>
    cases value with
    | obj members =>
      have untyped : Json.Members.says members "type" "transform-result" = false := by
        rw [Bool.eq_false_iff, ne_eq, Service.says_iff]
        exact fun type => other members ⟨read, type⟩
      simp [untyped]
    | _ => rfl

/-- The frames for which the client has no answer are just these. -/
theorem exists_readFrame_error_iff (frame : String) : (∃ fault, readFrame frame = .error fault) ↔ Fatal frame := by
  constructor
  · rintro ⟨fault, failed⟩
    -- What fails is the reading, the id or the error, looked at in this order.
    by_cases deep : ∃ e, Json.read frame = .error e ∧ e.fault = .tooDeep
    · obtain ⟨e, unread, deep⟩ := deep
      exact .deep e unread deep
    by_cases tells : ∃ result, IsResult frame result
    · obtain ⟨result, told⟩ := tells
      rw [readFrame_result told] at failed
      cases named : (memberOf result "requestId").isTruthy with
      | false =>
        rw [readResult_unnamed named] at failed
        cases failed
      | true =>
        rw [readResult_named named] at failed
        cases said : verdictOf result with
        | error other =>
          obtain ⟨unsuccessful, given, plain⟩ := (verdictOf_eq_error_iff result).mp ⟨other, said⟩
          exact .error result told named unsuccessful given plain
        | ok verdict =>
          -- The verdict was found, so it is the id that cannot be looked up.
          refine .id result told named (by_contra fun simple => ?_)
          have usable := Service.lookupFault?_eq_none_iff.mpr simple
          simp [said, namedEdit, usable, bind, Except.bind, pure, Except.pure] at failed
    · have quiet := readFrame_other (fun e unread fault => deep ⟨e, unread, fault⟩) fun result told =>
        tells ⟨result, told⟩
      rw [quiet] at failed
      cases failed
  · rintro (⟨e, unread, deep⟩ | ⟨result, told, named, compound⟩ | ⟨result, told, named, failed, given, plain⟩)
    · exact ⟨.tooDeep, by simp [readFrame, unread, deep]⟩
    · rw [readFrame_result told, readResult_named named]
      obtain ⟨kind, unusable⟩ := Option.ne_none_iff_exists'.mp fun usable =>
        Service.lookupFault?_eq_none_iff.mp usable compound
      cases said : verdictOf result with
      | error fault => exact ⟨fault, rfl⟩
      | ok verdict => exact ⟨.unusableId kind, by simp [namedEdit, unusable, bind, Except.bind]⟩
    · rw [readFrame_result told, readResult_named named]
      obtain ⟨fault, said⟩ := (verdictOf_eq_error_iff result).mpr ⟨failed, given, plain⟩
      exact ⟨fault, by rw [said]; rfl⟩

/-- What a frame says of an edit is what the result in it says. -/
theorem readFrame_eq_some {frame id : String} {verdict : Verdict} (said : readFrame frame = .ok (some (id, verdict))) :
    ∃ result, IsResult frame result ∧ result.lookup "requestId" = some (.str id) ∧ verdictOf result = .ok verdict := by
  by_cases tells : ∃ result, IsResult frame result
  · obtain ⟨result, told⟩ := tells
    refine ⟨result, told, ?_⟩
    rw [readFrame_result told] at said
    cases named : (memberOf result "requestId").isTruthy with
    | false =>
      rw [readResult_unnamed named] at said
      cases said
    | true =>
      rw [readResult_named named] at said
      cases verdict_eq : verdictOf result with
      | error fault =>
        rw [verdict_eq] at said
        cases said
      | ok verdict' =>
        unfold memberOf at said
        cases there : result.lookup "requestId" with
        | none =>
          -- An id that is missing counts as null, which names nothing.
          simp [memberOf, there, Json.isTruthy] at named
        | some value =>
          cases value <;>
            simp_all [namedEdit, Wire.lookupFault?, Json.asString?, bind, Except.bind, pure, Except.pure]
  · unfold readFrame at said
    split at said
    · split at said <;> cases said
    · rename_i members read
      split at said
      · rename_i typed
        exact absurd ⟨members, read, Service.says_iff.mp typed⟩ tells
      · cases said
    · cases said

/-! ### What a frame changes -/

/-- A verdict on an edit marks this edit and tells the subscribers; if the edit was made, a timer is set that will take
it off the list. Nothing else changes. -/
structure MarksOnly (id : String) (edit : Edit) (verdict : Verdict) (client after : Client) : Prop where
  marked : after.edits = client.edits.put id (edit.marked verdict)
  timed : after.timers = client.timers ++ match verdict with
    | .committed => [⟨client.timersSet, client.settings.pruneDelay, .prune id⟩]
    | .failed _ => []
  told : after.effects = client.effects ++ client.subscribers.map .notify
  rest : { after with edits := client.edits, timers := client.timers, timersSet := client.timersSet, effects := client.effects } = client

theorem marksOnly_mark {client : Client} {id : String} {edit : Edit} (there : client.edits.get? id = some edit)
    (verdict : Verdict) : MarksOnly id edit verdict client (client.after (mark id verdict)) := by
  cases verdict with
  | committed =>
    simp only [mark, markCommitted, after_bind, after_get, said_get, there, after_discard]
    exact ⟨rfl, rfl, rfl, rfl⟩
  | failed error =>
    simp only [mark, markFailed, after_bind, after_get, said_get, there]
    exact ⟨rfl, (List.append_nil _).symm, rfl, rfl⟩

/-- A frame changes nothing, or just the edit that it names. -/
theorem after_takeFrame (client : Client) (frame : String) : client.after (takeFrame frame) = client ∨
    ∃ result id edit verdict, IsResult frame result ∧ result.lookup "requestId" = some (.str id) ∧
      client.edits.get? id = some edit ∧ verdictOf result = .ok verdict ∧
        MarksOnly id edit verdict client (client.after (takeFrame frame)) := by
  cases said : readFrame frame with
  | error fault => exact .inl (by simp [takeFrame, said])
  | ok told =>
    cases told with
    | none => exact .inl (by simp [takeFrame, said])
    | some told =>
      obtain ⟨id, verdict⟩ := told
      have next : client.after (takeFrame frame) = client.after (mark id verdict) := by simp [takeFrame, said]
      cases there : client.edits.get? id with
      -- A verdict on an edit that is not on the list is passed over.
      | none => exact .inl (next.trans (Happening.after_mark_unknown client there verdict))
      | some edit =>
        obtain ⟨result, told, named, judged⟩ := readFrame_eq_some said
        exact .inr ⟨result, id, edit, verdict, told, named, there, judged, next ▸ marksOnly_mark there verdict⟩

theorem said_map {α β : Type} (client : Client) (f : α → β) (action : Action α) :
    client.said (f <$> action) = f (client.said action) := rfl

/-- A frame is taken unless the client has no answer for it. -/
theorem said_takeFrame_iff (client : Client) (frame : String) :
    client.said (takeFrame frame) = .ok () ↔ ¬Fatal frame := by
  rw [← exists_readFrame_error_iff]
  unfold takeFrame
  cases said : readFrame frame with
  | error fault => simp
  | ok told =>
    cases told with
    | none => simp
    | some told => simp [said_map]

/-! ### The connection -/

/-- What is left after frames have come in, one after the other. -/
def afterFrames (client : Client) (attempt : Nat) (frames : List String) : Client :=
  frames.foldl (fun client frame => client.after (received attempt frame)) client

/-- A socket that was closed is not open, whatever is tried next. -/
theorem phase?_closed {client : Client} {attempt : Nat} (open' : phase? client attempt = some .opened) :
    phase? (client.after (closed attempt)) attempt = none := by
  have gone : (client.channel.phases.drop attempt).get? attempt = none := by
    rw [Table.get?_drop, if_pos rfl]
  have phases : (client.after (closed attempt)).link.channel.phases = client.channel.phases.drop attempt := by
    cases ended : client.channel.ended with
    | true => rw [link_closed_ended client open' ended]
    | false =>
      rw [after_closed client open' ended]
      cases left : (Number.Amount.whole (client.dropped attempt).channel.attempts).below
        (client.dropped attempt).settings.maxAttempts with
      | false =>
        rw [link_retry_spent _ _ left]
        rfl
      | true =>
        rw [link_retry _ _ left]
        split <;> rfl
  -- What comes after the socket is gone sets timers and the status, but opens nothing.
  unfold phase?
  rw [← link_channel, phases, gone]

/-- A frame leaves the socket open unless the client has no answer for it. -/
theorem phase?_received {client : Client} {attempt : Nat} (open' : phase? client attempt = some .opened)
    (frame : String) : phase? (client.after (received attempt frame)) attempt = some .opened ↔ ¬Fatal frame := by
  have read : client.after (received attempt frame) = (client.after (takeFrame frame)).after
      (match client.said (takeFrame frame) with
        | .error _ => closed attempt
        | .ok _ => pure ()) := by
    simp only [received, after_bind, after_get, said_get, open', if_true]
    cases client.said (takeFrame frame) <;> rfl
  -- Taking a frame does not touch the connection, so only the closing behind it can.
  have still : phase? (client.after (takeFrame frame)) attempt = some .opened := by
    rw [← open']
    exact congrArg (fun link : Link => link.channel.phases.get? attempt) (aside_takeFrame frame client).link
  rw [read, ← said_takeFrame_iff client]
  cases said : client.said (takeFrame frame) with
  | ok taken => simp [still]
  | error fault => simp [phase?_closed still]

theorem after_received_rest {client : Client} {attempt : Nat} (other : phase? client attempt ≠ some .opened)
    (frame : String) : client.after (received attempt frame) = client := by
  simp [received, other]

/-- The socket is left open by frames as long as the client has an answer for each. -/
theorem phase?_afterFrames {client : Client} {attempt : Nat} (open' : phase? client attempt = some .opened)
    (frames : List String) : phase? (client.afterFrames attempt frames) attempt = some .opened ↔
      ∀ frame ∈ frames, ¬Fatal frame := by
  induction frames generalizing client with
  | nil => simpa [afterFrames] using open'
  | cons frame rest ih =>
    rw [List.forall_mem_cons]
    by_cases fatal : Fatal frame
    · -- Once the socket is closed, no frame comes in any more.
      have shut : phase? (client.after (received attempt frame)) attempt ≠ some .opened := fun still =>
        (phase?_received open' frame).mp still fatal
      have stays : ∀ frames : List String, (client.after (received attempt frame)).afterFrames attempt frames =
          client.after (received attempt frame) := by
        intro frames
        induction frames with
        | nil => rfl
        | cons frame' rest ih =>
          unfold afterFrames at ih ⊢
          rw [List.foldl_cons, after_received_rest shut, ih]
      have left : client.afterFrames attempt (frame :: rest) = client.after (received attempt frame) := stays rest
      rw [left]
      exact ⟨fun still => absurd still shut, fun harmless => absurd fatal harmless.1⟩
    · have next := ih ((phase?_received open' frame).mpr fatal)
      exact next.trans ⟨fun rest => ⟨fatal, rest⟩, fun all => all.2⟩

/-- The client outlives every frame but those for which it has no answer, over a connection as by itself; and no frame
changes anything but the edit that it names. -/
theorem survives_iff (client : Client) (frame : String) :
    (client.said (takeFrame frame) = .ok () ↔ ¬Fatal frame) ∧
      (client.after (takeFrame frame) = client ∨
        ∃ result id edit verdict, IsResult frame result ∧ result.lookup "requestId" = some (.str id) ∧
          client.edits.get? id = some edit ∧ verdictOf result = .ok verdict ∧
            MarksOnly id edit verdict client (client.after (takeFrame frame))) ∧
      ∀ attempt frames, phase? client attempt = some .opened →
        (phase? (client.afterFrames attempt frames) attempt = some .opened ↔ ∀ frame ∈ frames, ¬Fatal frame) :=
  ⟨said_takeFrame_iff client frame, after_takeFrame client frame, fun _ frames open' => phase?_afterFrames open' frames⟩

/-- A frame with the result of an edit whose id is a list. -/
def listedFrame : String :=
  (Json.obj [("type", .str "transform-result"), ("requestId", .arr [.str "x"]), ("success", .bool true)]).write

/-- The client has no answer for a result whose id is a list, though an edit waits; it loses its connection. -/
theorem listed_frame_escapes :
    let waiting := (Happening.added "x" "text-update" ⟨"a.tsx", 1, 1, "", []⟩ 0.0).after twoHeadings
    waiting.said (takeFrame listedFrame) = .error (.unusableId "list") ∧
      phase? waiting 0 = some .opened ∧ phase? (waiting.after (received 0 listedFrame)) 0 = none := by
  decide +kernel

end Retouch.Client
