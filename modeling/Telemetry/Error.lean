import Telemetry.Mode
import Telemetry.Text.Duration
import Telemetry.Text.Quoted

/-!
# Errors

An error names its cause; its kind, which tells a caller how to react, and its text follow from
that. Errors of the two transient kinds end a sampling step and nothing else.
-/
namespace Telemetry

inductive ErrorKind where
  | validationFailed
  | unsupported
  | notFound
  | alreadyExists
  | datastore
  | timeout
  | emit
  | internal
  | configuration
  | io
  | json
  deriving DecidableEq, Repr

/-- What the text of an error of this kind begins with. -/
def ErrorKind.heading : ErrorKind → String
  | .validationFailed => "Validation failed"
  | .unsupported => "Unsupported operation"
  | .notFound => "Not found"
  | .alreadyExists => "Already exists"
  | .datastore => "Datastore error"
  | .timeout => "Timed out"
  | .emit => "Emit error"
  | .internal => "Internal error"
  | .configuration => "Configuration error"
  | .io => "I/O error"
  | .json => "JSON error"

def ErrorKind.message (kind : ErrorKind) (detail : String) : String :=
  kind.heading ++ ": " ++ detail

/-- Whether a later attempt may succeed: the datastore could not answer, or not in time. -/
def ErrorKind.isTransient : ErrorKind → Bool
  | .datastore | .timeout => true
  | _ => false

/-- The three kinds of message a datastore passes to a server. -/
inductive Channel where
  | change
  | operation
  | operationalRead
  deriving DecidableEq, Repr

def Channel.name : Channel → String
  | .change => "change"
  | .operation => "operation"
  | .operationalRead => "operational reader"

inductive Error where
  -- paths
  | relativePath (path : String)
  | malformedElement (text : String)
  | openPredicate (path : String)
  -- reading and flattening
  | readFailed (path : String)
  | readBroken (path : String)
  | malformedPath (path : String)
  | readTimedOut (path : String) (limit : Nat)
  | treeNotObject (path : String)
  | listWithoutSchema (path : String)
  | entryWithoutKey (path key : String)
  | keyUnquotable (key text : String)
  -- schema
  | nodeUnnamed (path : String)
  | nodeUnknown (path : String)
  -- cache and registry
  | leafUnknown (request entry : Nat) (path : String)
  | requestUnknown (id : Nat)
  | requestRegistered (id : Nat)
  -- requests
  | malformedRequest (id : Nat) (detail : String)
  | modeMissing
  | modeUnknown (text : String)
  | entryRepeated (id : Nat)
  | pathMissing
  | entryModeUnknown (text : String)
  | noEntries (id : Nat)
  | pathInvalid (path : String)
  | entryModeMissing
  | heartbeatTooShort (least : Nat)
  | sampleTooShort (least : Nat)
  -- lifecycle
  | alreadyRunning (id : Nat)
  | notPollable (mode : RequestMode) (id : Nat)
  | notRunning (id : Nat)
  -- transactions
  | transactionPending (txn pending : Nat)
  | requestExists (id : Nat)
  | requestWithoutData (id : Nat)
  | requestInvalid (id : Nat)
  | modificationUnsupported (path : String)
  | changeUnsupported (path : String)
  | transactionRejected (txn : Nat)
  -- operations and commands
  | operationUnknown (name : String)
  | pollWithoutId
  | requestIdExpected
  -- messages
  | subscriberUnknown (moduleName : String)
  | readerUnknown (path : String)
  | receiverGone (channel : Channel)
  | replyDropped (channel : Channel)
  | topicUnavailable (topic : String)
  | sendRefused (reason : String)
  | undelivered (reason : String)
  -- configuration and files
  | settingZero (name : String)
  | malformedSettings (detail : String)
  | fileUnreadable (path detail : String)
  | dataNotObject
  | malformedJson (detail : String)
  deriving DecidableEq, Repr

namespace Error

def kind : Error → ErrorKind
  | relativePath .. | malformedElement .. | openPredicate .. => .validationFailed
  | readFailed .. | readBroken .. | malformedPath .. | treeNotObject .. => .datastore
  | readTimedOut .. => .timeout
  | listWithoutSchema .. | entryWithoutKey .. | keyUnquotable .. => .internal
  | nodeUnnamed .. | nodeUnknown .. | leafUnknown .. | requestUnknown .. => .notFound
  | requestRegistered .. => .alreadyExists
  | malformedRequest .. | modeMissing | modeUnknown .. | entryRepeated .. | pathMissing
  | entryModeUnknown .. | noEntries .. | pathInvalid .. | entryModeMissing
  | heartbeatTooShort .. | sampleTooShort .. => .validationFailed
  | alreadyRunning .. => .internal
  | notPollable .. | notRunning .. => .unsupported
  | transactionPending .. => .internal
  | requestExists .. | requestWithoutData .. | requestInvalid .. => .validationFailed
  | modificationUnsupported .. | changeUnsupported .. => .unsupported
  | transactionRejected .. => .validationFailed
  | operationUnknown .. => .notFound
  | pollWithoutId | requestIdExpected => .validationFailed
  | subscriberUnknown .. | readerUnknown .. => .notFound
  | receiverGone .. | replyDropped .. => .internal
  | topicUnavailable .. | undelivered .. => .emit
  | sendRefused .. => .datastore
  | settingZero .. | malformedSettings .. | fileUnreadable .. | dataNotObject => .configuration
  | malformedJson .. => .json

/-- What went wrong, in words. -/
def detail : Error → String
  | relativePath path => s!"path {Text.quoted path} is not absolute"
  | malformedElement text => s!"invalid path element {Text.quoted text}"
  | openPredicate path => s!"unterminated predicate in {Text.quoted path}"
  | readFailed path => s!"read of {path} failed"
  | readBroken path => s!"injected failure for {path}"
  | malformedPath path => s!"malformed path {Text.quoted path}"
  | readTimedOut path limit => s!"operational read of {path} exceeded {Text.duration limit}"
  | treeNotObject path => s!"operational data for {path} is not an object"
  | listWithoutSchema path => s!"no schema node for list {path}"
  | entryWithoutKey path key => s!"entry of list {path} has no key {key}"
  | keyUnquotable key text => s!"key {key} value {Text.quoted text} cannot be quoted"
  | nodeUnnamed path => s!"schema node for {Text.quoted path}"
  | nodeUnknown path => s!"schema node for {path}"
  | leafUnknown request entry path =>
    s!"telemetry entry not found: request {request}, subscription {entry}, path {path}"
  | requestUnknown id => s!"subscribe request {id} not found"
  | requestRegistered id => s!"subscribe request {id} already exists"
  | malformedRequest id detail => s!"malformed subscribe-request {id}: {detail}"
  | modeMissing => "mode should be specified"
  | modeUnknown text => s!"invalid mode {text}"
  | entryRepeated id => s!"duplicate subscription id {id}"
  | pathMissing => "path is mandatory"
  | entryModeUnknown text => s!"invalid subscription mode {text}"
  | noEntries id => s!"subscribe-request {id} has no subscriptions"
  | pathInvalid path => s!"invalid path: {path}"
  | entryModeMissing => "mode is mandatory"
  | heartbeatTooShort least => s!"heartbeat-interval is shorter than minimum interval {least}"
  | sampleTooShort least => s!"sample-interval is shorter than minimum interval {least}"
  | alreadyRunning id => s!"subscribe-request {id} is already running"
  | notPollable mode id => s!"poll on {mode.name} subscribe-request {id}"
  | notRunning id => s!"subscribe-request {id} is not running"
  | transactionPending txn pending =>
    s!"transaction {txn} arrived while transaction {pending} is pending"
  | requestExists id => s!"subscribe-request {id} already exists"
  | requestWithoutData id => s!"no data for created subscribe-request {id}"
  | requestInvalid id => s!"invalid id {id}"
  | modificationUnsupported path => s!"subscription modification is not supported: {path}"
  | changeUnsupported path => s!"unsupported change: {path}"
  | transactionRejected txn => s!"rejected {txn}"
  | operationUnknown name => s!"operation {name}"
  | pollWithoutId => "poll requires an id"
  | requestIdExpected => "expected a request id"
  | subscriberUnknown moduleName => s!"change subscriber for {moduleName}"
  | readerUnknown path => s!"operational reader for {path}"
  | receiverGone channel => s!"{channel.name} handler is gone"
  | replyDropped channel => s!"{channel.name} handler dropped the reply"
  | topicUnavailable topic => s!"{topic} is unavailable"
  | sendRefused reason => reason
  | undelivered reason => reason
  | settingZero name => s!"{name} must be greater than zero"
  | malformedSettings detail => s!"TOML parse error: {detail}"
  | fileUnreadable path detail => s!"Cannot read {path}: {detail}"
  | dataNotObject => "operational data must be a JSON object"
  | malformedJson detail => detail

def message (e : Error) : String := e.kind.message e.detail

def isTransient (e : Error) : Bool := e.kind.isTransient

end Error

end Telemetry
