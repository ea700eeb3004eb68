import Mathlib.Data.List.AList

/-!
What a submission's status may become, and who may ask. The device moves it by
appending ops, folded out of the log; the reviewer moves it by a decision. Both go
through `nextStatus`, so the table is the whole machine.
-/

namespace DataCollectionLab

/-- Every status `submission_status_check` admits. -/
inductive Status where
  | draft | finalized | inReview | approved | rejected | correctionRequired
  deriving DecidableEq, Repr

/-- What can be asked of a submission: the first two are folded out of the log. -/
inductive Event where
  | finalize | reopen | approve | reject | requestCorrection | comment
  deriving DecidableEq, Repr

def Status.text : Status → String
  | .draft => "draft"
  | .finalized => "finalized"
  | .inReview => "in_review"
  | .approved => "approved"
  | .rejected => "rejected"
  | .correctionRequired => "correction_required"

/-- `_TABLE`. A missing pair is a refusal. -/
def table : Status → List (Event × Status)
  | .draft => [(.finalize, .finalized), (.reopen, .draft), (.comment, .draft)]
  | .finalized =>
    [(.finalize, .finalized), (.reopen, .draft), (.approve, .approved), (.reject, .rejected),
      (.requestCorrection, .correctionRequired), (.comment, .finalized)]
  | .inReview =>
    [(.finalize, .finalized), (.reopen, .draft), (.approve, .approved), (.reject, .rejected),
      (.requestCorrection, .correctionRequired), (.comment, .inReview)]
  | .correctionRequired =>
    [(.finalize, .finalized), (.reopen, .correctionRequired), (.approve, .approved),
      (.reject, .rejected), (.requestCorrection, .correctionRequired),
      (.comment, .correctionRequired)]
  | .approved => []
  | .rejected => []

/-- `CLOSED`: the states that accept nothing at all. -/
def Status.closed (status : Status) : Bool := (table status).isEmpty

structure Refused where
  current : Status
  event : Event
  message : String

/-- `_CLOSED_MESSAGE`; only the two closed states have one. -/
def closedMessage : Status → String
  | .approved => "This submission has been approved. Approving, rejecting or " ++
      "correcting it again would rewrite a decision somebody has already acted on."
  | .rejected => "This submission has been rejected. It is closed, and work on it " ++
      "cannot continue."
  | _ => ""

def Event.asked : Event → String
  | .finalize => "finalised"
  | .reopen => "reopened"
  | .approve => "approved"
  | .reject => "rejected"
  | .requestCorrection => "sent back for correction"
  | .comment => "commented on"

/-- `next_status`: the status after `event`, or `Refused`. -/
def nextStatus (current : Status) (event : Event) : Except Refused Status :=
  let moves := table current
  if moves.isEmpty then .error ⟨current, event, closedMessage current⟩
  else match moves.lookup event with
    | some status => .ok status
    | none => .error ⟨current, event,
        "A submission in '" ++ current.text ++ "' cannot be " ++ event.asked ++ "."⟩

/-- `event_for_folded`: the device's event, read off the net of the whole log. -/
def eventForFolded : Option Status → Option Event
  | none => none
  | some .finalized => some .finalize
  | some _ => some .reopen

theorem nextStatus_of_closed {current : Status} (closed : current.closed = true) (event : Event) :
    nextStatus current event = .error ⟨current, event, closedMessage current⟩ := by
  unfold Status.closed at closed
  simp [nextStatus, closed]

end DataCollectionLab
