import ShapedReply.Check
import ShapedReply.Fit
import ShapedReply.Loose.Recovery
import ShapedReply.Settings
import ShapedReply.Target.Decode
import ShapedReply.Value.Reader

/-!
# Reading replies

A reply is read in a row of steps: a value is found in the text, fitted to the schema, checked
against it and decoded into the target. Steps without a schema or a target are left out.

A reply for a scalar need not be value text: a bare word counts as a string. A reply that fails for
a reason of the library itself can be read once more from its mended text; if that fails as well,
the first failure is reported.
-/

namespace ShapedReply

/-- Why a reply cannot be read. -/
inductive ReplyError where
  /-- No value is in the text; what is shown of it. -/
  | nothingFound (shown : Text)
  /-- What was found is not value text. -/
  | unreadable (reason : ReadError)
  /-- The value does not fit the schema. -/
  | unfit (reason : FitError)
  /-- The fitted value disagrees with the schema. -/
  | violated (reason : CheckError)
  /-- The value does not fit the target. -/
  | undecodable (reason : DecodeError)

/-- Whether a failure is a reason to try the mended text. -/
def ReplyError.isMendable : ReplyError → Bool
  | .nothingFound _ | .undecodable _ => true
  | .unfit reason => reason.isMisfit
  | .violated reason => reason.isViolation
  | .unreadable _ => false

namespace Reply

mutual

/-- Whether a schema is for scalars only, so that a bare word can be a reply. -/
def isForScalars (resolve : Resolver) : Schema → Bool
  | .string | .int | .float | .bool | .null | .enum .. | .literal _ => true
  | .optional inner => isForScalars resolve inner
  | .anyOf members => allForScalars resolve members
  | .ref name => match resolve name with
    | some (.enum ..) => true
    | _ => false
  | .array _ | .map .. | .object .. | .external _ => false

/-- Whether all schemas are for scalars only. -/
def allForScalars (resolve : Resolver) : List Schema → Bool
  | [] => true
  | s :: rest => isForScalars resolve s && allForScalars resolve rest

end

/-- The first of some texts that can be read as a value. -/
def firstReadable : List Text → Option Value
  | [] => none
  | t :: rest => match Value.read t with
    | .ok v => some v
    | .error _ => firstReadable rest

/-- The first value that can be read is read from one of the texts. -/
theorem firstReadable_eq_some {ts : List Text} {v : Value} (h : firstReadable ts = some v) :
    ∃ t ∈ ts, Value.read t = .ok v := by
  fun_induction firstReadable ts with
  | case1 => cases h
  | case2 t rest w hread =>
    cases h
    exact ⟨t, List.mem_cons_self, hread⟩
  | case3 t rest e hread ih =>
    obtain ⟨u, hu, hv⟩ := ih h
    exact ⟨u, List.mem_cons_of_mem t hu, hv⟩

/-- The value of a reply for a scalar: value text, alone or fenced, or else the bare text, fenced or
alone. -/
def scalarValue (t : Text) : Value :=
  let fenced := fencedBlocks t
  match firstReadable (Text.trim t :: fenced) with
  | some v => v
  | none => .str (String.ofList (fenced.head?.getD (Text.trim t)))

/-- A reply for a scalar is read as it stands if it is value text. -/
theorem scalarValue_of_read {t : Text} {v : Value} (h : Value.read (Text.trim t) = .ok v) :
    scalarValue t = v := by
  simp only [scalarValue, firstReadable, h]

/-- A reply for a scalar is a bare word if it is no value text and has no fenced blocks. -/
theorem scalarValue_of_bare {t : Text} {e : ReadError} (h : Value.read (Text.trim t) = .error e)
    (hfences : fencedBlocks t = []) : scalarValue t = .str (String.ofList (Text.trim t)) := by
  simp only [scalarValue, hfences, firstReadable, h, List.head?_nil, Option.getD_none]

/-- The value in a text, wherever it stands. -/
def foundValue (settings : Settings) (t : Text) (done : Bool) : Except ReplyError Value :=
  match recover? t done with
  | some found => (Value.read found).mapError .unreadable
  | none => .error (.nothingFound (preview settings.errorPreviewChars t))

/-- The value of a reply, before it is fitted. -/
def rawValue (settings : Settings) (resolve : Resolver) (t : Text) (s : Option Schema)
    (done : Bool) : Except ReplyError Value :=
  if s.any (isForScalars resolve) then .ok (scalarValue t) else foundValue settings t done

/-- The value of a reply, fitted and checked. -/
def value (settings : Settings) (resolve : Resolver) (t : Text) (s : Option Schema) (done : Bool) :
    Except ReplyError Value := do
  let raw ← rawValue settings resolve t s done
  match s with
  | none => return raw
  | some s =>
    let fitted ← (fit resolve raw s).mapError .unfit
    if settings.validateOutput then (check resolve fitted s).mapError .violated
    return fitted

/-- A reply read into a target. -/
def read (settings : Settings) (resolve : Resolver) (t : Text) (target : Option Target)
    (s : Option Schema) (done : Bool) : Except ReplyError Value := do
  let v ← value settings resolve t s done
  (decode v target settings.snakeCaseKeys).mapError .undecodable

/-- A reply read into a target, once more from the mended text if that helps. -/
def readMending (settings : Settings) (resolve : Resolver) (t : Text) (target : Option Target)
    (s : Option Schema) (done : Bool) : Except ReplyError Value :=
  match read settings resolve t target s done with
  | .ok v => .ok v
  | .error first =>
    if first.isMendable then
      match mend? t with
      | none => .error first
      | some mended =>
        if mended = Text.trim t then .error first
        else match read settings resolve mended target s done with
          | .ok v => .ok v
          | .error second => .error (if second.isMendable then first else second)
    else .error first

end Reply

end ShapedReply
