import DnsRelay.Admin.Apply
import DnsRelay.Gui.Draft
import DnsRelay.Lib.Machine

/-!
# Requests to the privileged helper

The GUI runs as a user and the helper as root.  They talk through files.  A call
of `request_admin_with_paths` writes a request under a fresh identifier and
starts the helper with that identifier.  The helper reads the request, removes
the file, does what it says and writes a response, which the call reads and
removes.  A request is read only if it is a private regular file of the user
who started the helper.

`Mailbox` has the files, the calls and the helpers.  Every operation that changes
a file is a step of its own and may fail.  A message is read in one step, from
`symlink_metadata` to the end of the file: the kind, the mode and the owner are those
of the open file, so a new file under its name makes no difference to what is read.
Calls and helpers may be killed between any two steps, and helpers may be started for
any identifier at any time.  `tamper` and `forge` put anything in the place of a
request or a response.

`Move` lists the steps by their effect.
-/

namespace DnsRelay.Admin

open Lib

/-! ## Messages -/

abbrev Uuid := BitVec 128

inductive AdminAction where
  | status
  | readConfig
  | install (configToml expectedBinarySha256 : Str)
  | update (expectedBinarySha256 : Str)
  | repair (expectedBinarySha256 configToml : Str)
  | uninstall
  | start
  | stop
  | restart
  | applyConfig (configToml : Str) (restart : Bool)
deriving DecidableEq, Repr

structure AdminRequest where
  id : Uuid
  action : AdminAction
deriving DecidableEq, Repr

structure AdminResponse where
  id : Uuid
  ok : Bool
  message : Str
deriving DecidableEq, Repr

/-- `AdminError::fmt`. -/
def AdminError.display : AdminError → Str
  | .invalidRequestId => "request ID must be a UUID".toList
  | .invalidRequestFile message => message
  | .io error => "request I/O failed: ".toList ++ error
  | .json error => "invalid request JSON: ".toList ++ error
  | .operation message => message
  | .unsupported => "service management is not implemented".toList

inductive FileKind where
  | regular
  | symlink
  | other
deriving DecidableEq, Repr

structure MessageFile (β : Type) where
  kind : FileKind
  mode : Nat
  owner : Nat
  /-- What `serde_json` makes of its content. -/
  body : Except Str β
deriving DecidableEq

/-- What is left of a message that is not written to its end. -/
def cutOff : Str := "EOF while parsing a value".toList

def notFound : Str := "No such file or directory (os error 2)".toList

def fileExists : Str := "File exists (os error 17)".toList

/-- `open_private_message` after `validate_message_path`, and the reading. -/
def openPrivateMessage {β : Type} (owner : Nat) (file : Option (MessageFile β)) :
    Except AdminError β :=
  match file with
  | none => .error (.io notFound)
  | some f =>
      if f.kind = .symlink then
        .error (.invalidRequestFile "message file must not be a symlink".toList)
      else if f.kind ≠ .regular then
        .error (.invalidRequestFile "message path must be a regular file".toList)
      else if f.mode &&& 0o777 ≠ 0o600 then
        .error (.invalidRequestFile "request file mode must be 0600".toList)
      else if f.owner ≠ owner then
        .error (.invalidRequestFile "request file is not owned by the invoking user".toList)
      else f.body.mapError .json

/-- A message is read under the identifier in its file name. -/
def readMessage {β : Type} (idOf : β → Uuid) (mismatch : Str) (owner : Nat) (id : Uuid)
    (file : Option (MessageFile β)) : Except AdminError β :=
  match openPrivateMessage owner file with
  | .error e => .error e
  | .ok message =>
      if idOf message ≠ id then .error (.invalidRequestFile mismatch) else .ok message

/-- `read_request`. -/
def readRequest : Nat → Uuid → Option (MessageFile AdminRequest) → Except AdminError AdminRequest :=
  readMessage AdminRequest.id "request body ID does not match its filename".toList

/-- `read_response`. -/
def readResponse :
    Nat → Uuid → Option (MessageFile AdminResponse) → Except AdminError AdminResponse :=
  readMessage AdminResponse.id "response body ID does not match its filename".toList

/-- A private regular file of the user. -/
def MessageFile.Private {β : Type} (owner : Nat) (f : MessageFile β) : Prop :=
  f.kind = .regular ∧ f.mode &&& 0o777 = 0o600 ∧ f.owner = owner

theorem openPrivateMessage_ok {β : Type} {owner : Nat} {file : Option (MessageFile β)} {b : β}
    (h : openPrivateMessage owner file = .ok b) :
    ∃ f, file = some f ∧ f.Private owner ∧ f.body = .ok b := by
  cases file with
  | none => cases h
  | some f =>
      simp only [openPrivateMessage] at h
      split at h
      · cases h
      · split at h
        · cases h
        · next hkind =>
            split at h
            · cases h
            · next hmode =>
                split at h
                · cases h
                · next howner =>
                    refine ⟨f, rfl, ⟨not_not.mp hkind, not_not.mp hmode, not_not.mp howner⟩, ?_⟩
                    cases hbody : f.body with
                    | error e =>
                        rw [hbody] at h
                        cases h
                    | ok c =>
                        rw [hbody] at h
                        cases h
                        rfl

theorem readMessage_ok {β : Type} {idOf : β → Uuid} {mismatch : Str} {owner : Nat} {id : Uuid}
    {file : Option (MessageFile β)} {b : β}
    (h : readMessage idOf mismatch owner id file = .ok b) :
    idOf b = id ∧ ∃ f, file = some f ∧ f.Private owner ∧ f.body = .ok b := by
  rw [readMessage] at h
  split at h
  · cases h
  · next message hopen =>
      split at h
      · cases h
      · next hid =>
          cases h
          exact ⟨not_not.mp hid, openPrivateMessage_ok hopen⟩

/-! ## Calls and helpers -/

/-- `admin_error`. -/
def adminError (error : AdminError) : Gui.CommandError :=
  .new "admin_error".toList error.display

/-- The error for a helper that did not end well. -/
def elevationCancelled : Gui.CommandError :=
  .new "elevation_cancelled".toList
    "Administrator authorization was cancelled or failed".toList

inductive ElevationFault where
  /-- `elevation_command` fails. -/
  | command (error : AdminError)
  | spawn (text : Str)
deriving DecidableEq

/-- The error of a call whose helper is not started. -/
def ElevationFault.error : ElevationFault → Gui.CommandError
  | .command error => adminError error
  | .spawn text => .new "elevation_failed".toList text

/-- How far a call of `request_admin_with_paths` has come. -/
inductive CallStage where
  | creating
  | writing
  | syncing
  | elevating
  | waiting (helper : Nat)
  | reading
  | removing (response : Except AdminError AdminResponse)
  | cleaning (error : Gui.CommandError)
  | returned (result : Except Gui.CommandError AdminResponse)
  | gone
deriving DecidableEq

/-- A call of `request_admin_with_paths`. -/
structure AdminCall where
  action : AdminAction
  stage : CallStage
deriving DecidableEq

inductive HelperStage where
  | reading
  | removing (action : AdminAction)
  | dispatching (action : AdminAction)
  | responding (response : AdminResponse)
  | writing (response : AdminResponse)
  | syncing
  | chowning
  | settling
  | exited (ok : Bool)
deriving DecidableEq

structure Helper where
  id : Uuid
  stage : HelperStage
deriving DecidableEq

/-- A request that was done, with what came of it. -/
structure Execution where
  id : Uuid
  action : AdminAction
  ok : Bool
  message : Str
deriving DecidableEq

def Execution.response (e : Execution) : AdminResponse := ⟨e.id, e.ok, e.message⟩

/-- The directories of one user, the calls of the user's GUI and the helpers
started for the user. -/
structure Mailbox where
  requests : Uuid → Option (MessageFile AdminRequest)
  responses : Uuid → Option (MessageFile AdminResponse)
  calls : Uuid → Option AdminCall
  helpers : List Helper
  executed : List Execution

namespace Mailbox

def new : Mailbox := ⟨fun _ => none, fun _ => none, fun _ => none, [], []⟩

def setCall (s : Mailbox) (id : Uuid) (call : AdminCall) : Mailbox :=
  { s with calls := Function.update s.calls id (some call) }

/-- The place of a request gets a file or becomes free. -/
def setRequest (s : Mailbox) (id : Uuid) (file : Option (MessageFile AdminRequest)) : Mailbox :=
  { s with requests := Function.update s.requests id file }

/-- The place of a response gets a file or becomes free. -/
def setResponse (s : Mailbox) (id : Uuid) (file : Option (MessageFile AdminResponse)) : Mailbox :=
  { s with responses := Function.update s.responses id file }

def setHelper (s : Mailbox) (h : Nat) (id : Uuid) (stage : HelperStage) : Mailbox :=
  { s with helpers := s.helpers.set h ⟨id, stage⟩ }

@[simp] theorem setCall_self (s : Mailbox) (id : Uuid) (call : AdminCall) :
    (s.setCall id call).calls id = some call := Function.update_self _ _ _

theorem setCall_ne (s : Mailbox) {id id' : Uuid} (h : id' ≠ id) (call : AdminCall) :
    (s.setCall id call).calls id' = s.calls id' := Function.update_of_ne h _ _

@[simp] theorem setRequest_self (s : Mailbox) (id : Uuid)
    (file : Option (MessageFile AdminRequest)) : (s.setRequest id file).requests id = file :=
  Function.update_self _ _ _

theorem setRequest_ne (s : Mailbox) {id id' : Uuid} (h : id' ≠ id)
    (file : Option (MessageFile AdminRequest)) :
    (s.setRequest id file).requests id' = s.requests id' := Function.update_of_ne h _ _

@[simp] theorem setResponse_self (s : Mailbox) (id : Uuid)
    (file : Option (MessageFile AdminResponse)) : (s.setResponse id file).responses id = file :=
  Function.update_self _ _ _

theorem setResponse_ne (s : Mailbox) {id id' : Uuid} (h : id' ≠ id)
    (file : Option (MessageFile AdminResponse)) :
    (s.setResponse id file).responses id' = s.responses id' := Function.update_of_ne h _ _

def spawn (s : Mailbox) (id : Uuid) : Mailbox :=
  { s with helpers := s.helpers ++ [⟨id, .reading⟩] }

def execute (s : Mailbox) (e : Execution) : Mailbox := { s with executed := s.executed ++ [e] }

inductive CallAct where
  /-- `open` with `create_new`. -/
  | create (fault : Option Str)
  /-- `write_all`. -/
  | write (fault : Option Str)
  /-- `sync_all`. -/
  | sync (fault : Option Str)
  /-- `elevation_command` and `status`. -/
  | elevate (fault : Option ElevationFault)
  | wait
  /-- `read_response`. -/
  | read
  /-- `remove_file`, of the response or the request. -/
  | remove (done : Bool)
  | quit

inductive HelperAct where
  /-- `read_request`. -/
  | read
  /-- `remove_file`. -/
  | remove (fault : Option Str)
  | dispatch (ok : Bool) (message : Str)
  /-- `open` with `create_new`. -/
  | create (fault : Option Str)
  /-- `write_all`. -/
  | write (fault : Option Str)
  /-- `sync_all`. -/
  | sync (fault : Option Str)
  /-- `fchown`. -/
  | chown (fault : Option Str)
  | kill

inductive Act where
  | request (id : Uuid) (action : AdminAction)
  | call (id : Uuid) (a : CallAct)
  | start (id : Uuid)
  | helper (h : Nat) (a : HelperAct)
  | tamper (id : Uuid) (file : Option (MessageFile AdminRequest))
  | forge (id : Uuid) (file : Option (MessageFile AdminResponse))

/-- The result of a call that has read a response. -/
def callResult (response : Except AdminError AdminResponse) :
    Except Gui.CommandError AdminResponse :=
  match response with
  | .error e => .error (adminError e)
  | .ok r => if r.ok then .ok r else .error (.new "admin_failed".toList r.message)

section Steps

variable (user : Nat)

/-- A step of a call of `request_admin_with_paths`. -/
def stepCall (s : Mailbox) (id : Uuid) (c : AdminCall) : CallAct → Option Mailbox
  | .create fault =>
      if c.stage = .creating then
        match s.requests id, fault with
        | none, none =>
            some ((s.setRequest id (some ⟨.regular, 0o600, user, .error cutOff⟩)).setCall id
              { c with stage := .writing })
        | some _, none =>
            some (s.setCall id { c with stage := .returned (.error (adminError (.io fileExists))) })
        | _, some e =>
            some (s.setCall id { c with stage := .returned (.error (adminError (.io e))) })
      else none
  | .write fault =>
      if c.stage = .writing then
        match fault with
        | none =>
            -- the open file may have lost its name by now
            some ((s.setRequest id
              ((s.requests id).map ({ · with body := .ok ⟨id, c.action⟩ }))).setCall
                id { c with stage := .syncing })
        | some e =>
            some (s.setCall id { c with stage := .returned (.error (adminError (.io e))) })
      else none
  | .sync fault =>
      if c.stage = .syncing then
        match fault with
        | none => some (s.setCall id { c with stage := .elevating })
        | some e =>
            some (s.setCall id { c with stage := .returned (.error (adminError (.io e))) })
      else none
  | .elevate fault =>
      if c.stage = .elevating then
        match fault with
        | none =>
            some ((s.spawn id).setCall id { c with stage := .waiting s.helpers.length })
        | some e => some (s.setCall id { c with stage := .cleaning e.error })
      else none
  | .wait =>
      match c.stage with
      | .waiting h =>
          match s.helpers[h]? with
          | some ⟨_, .exited true⟩ => some (s.setCall id { c with stage := .reading })
          | some ⟨_, .exited false⟩ =>
              some (s.setCall id { c with stage := .cleaning elevationCancelled })
          | _ => none
      | _ => none
  | .read =>
      if c.stage = .reading then
        some (s.setCall id { c with stage := .removing (readResponse user id (s.responses id)) })
      else none
  | .remove done =>
      match c.stage with
      | .removing response =>
          some ((if done then s.setResponse id none else s).setCall id
            { c with stage := .returned (callResult response) })
      | .cleaning e =>
          some ((if done then s.setRequest id none else s).setCall id
            { c with stage := .returned (.error e) })
      | _ => none
  | .quit =>
      match c.stage with
      | .returned _ => none
      | _ => some (s.setCall id { c with stage := .gone })

/-- A step of a helper, `run` of the command `request`. -/
def stepHelper (s : Mailbox) (h : Nat) (p : Helper) : HelperAct → Option Mailbox
  | .read =>
      if p.stage = .reading then
        match readRequest user p.id (s.requests p.id) with
        | .ok request => some (s.setHelper h p.id (.removing request.action))
        | .error _ => some (s.setHelper h p.id (.exited false))
      else none
  | .remove fault =>
      match p.stage with
      | .removing action =>
          match s.requests p.id, fault with
          | some _, none =>
              some ((s.setRequest p.id none).setHelper h p.id (.dispatching action))
          | _, _ => some (s.setHelper h p.id (.exited false))
      | _ => none
  | .dispatch ok message =>
      match p.stage with
      | .dispatching action =>
          some ((s.execute ⟨p.id, action, ok, message⟩).setHelper h p.id
            (.responding ⟨p.id, ok, message⟩))
      | _ => none
  | .create fault =>
      match p.stage with
      | .responding response =>
          match s.responses p.id, fault with
          | none, none =>
              some ((s.setResponse p.id (some ⟨.regular, 0o600, 0, .error cutOff⟩)).setHelper h p.id
                (.writing response))
          | _, _ => some (s.setHelper h p.id (.exited false))
      | _ => none
  | .write fault =>
      match p.stage with
      | .writing response =>
          match fault with
          | none =>
              some ((s.setResponse p.id ((s.responses p.id).map ({ · with body := .ok response }))
                ).setHelper h p.id .syncing)
          | some _ => some (s.setHelper h p.id (.exited false))
      | _ => none
  | .sync fault =>
      match p.stage with
      | .syncing => some (s.setHelper h p.id (if fault.isNone then .chowning else .exited false))
      | .settling => some (s.setHelper h p.id (.exited fault.isNone))
      | _ => none
  | .chown fault =>
      if p.stage = .chowning then
        match fault with
        | none =>
            some ((s.setResponse p.id ((s.responses p.id).map ({ · with owner := user }))).setHelper
              h p.id .settling)
        | some _ => some (s.setHelper h p.id (.exited false))
      else none
  | .kill =>
      match p.stage with
      | .exited _ => none
      | _ => some (s.setHelper h p.id (.exited false))

def step (s : Mailbox) : Act → Option Mailbox
  | .request id action =>
      match s.calls id with
      | none => some (s.setCall id ⟨action, .creating⟩)
      | some _ => none
  | .call id a => (s.calls id).bind fun c => s.stepCall user id c a
  | .start id => some (s.spawn id)
  | .helper h a => (s.helpers[h]?).bind fun p => s.stepHelper user h p a
  | .tamper id file => some (s.setRequest id file)
  | .forge id file => some (s.setResponse id file)

def machine : Machine Mailbox Act where
  init := new
  step := step user

end Steps

/-! ## What a step can do -/

/-- A call changes its stage and no file. -/
inductive Advance (user : Nat) (s : Mailbox) (id : Uuid) : CallStage → CallStage → Prop where
  | failed {stage : CallStage} (e : AdminError) :
      Advance user s id stage (.returned (.error (adminError e)))
  | synced : Advance user s id .syncing .elevating
  | abandoned {stage : CallStage} {e : Gui.CommandError} (other : e.code ≠ "admin_failed".toList) :
      Advance user s id stage (.cleaning e)
  | woken {h : Nat} : Advance user s id (.waiting h) .reading
  | heard : Advance user s id .reading (.removing (readResponse user id (s.responses id)))
  | quit {stage : CallStage} : Advance user s id stage .gone

/-- The steps by their effect, with what each one finds. -/
inductive Move (user : Nat) (s : Mailbox) : Act → Mailbox → Prop where
  | request {id : Uuid} {action : AdminAction} (fresh : s.calls id = none) :
      Move user s (.request id action) (s.setCall id ⟨action, .creating⟩)
  | create {id : Uuid} {c : AdminCall} (found : s.calls id = some c) (stage : c.stage = .creating)
      (free : s.requests id = none) :
      Move user s (.call id (.create none))
        ((s.setRequest id (some ⟨.regular, 0o600, user, .error cutOff⟩)).setCall id
          ⟨c.action, .writing⟩)
  | write {id : Uuid} {c : AdminCall} (found : s.calls id = some c) (stage : c.stage = .writing) :
      Move user s (.call id (.write none))
        ((s.setRequest id ((s.requests id).map ({ · with body := .ok ⟨id, c.action⟩ }))).setCall id
          ⟨c.action, .syncing⟩)
  | advance {id : Uuid} {c : AdminCall} {a : CallAct} {stage : CallStage}
      (found : s.calls id = some c) (advances : Advance user s id c.stage stage) :
      Move user s (.call id a) (s.setCall id ⟨c.action, stage⟩)
  | elevate {id : Uuid} {c : AdminCall} (found : s.calls id = some c)
      (stage : c.stage = .elevating) :
      Move user s (.call id (.elevate none))
        ((s.spawn id).setCall id ⟨c.action, .waiting s.helpers.length⟩)
  | settle {id : Uuid} {c : AdminCall} {response : Except AdminError AdminResponse} {done : Bool}
      (found : s.calls id = some c) (stage : c.stage = .removing response) :
      Move user s (.call id (.remove done))
        ((if done then s.setResponse id none else s).setCall id
          ⟨c.action, .returned (callResult response)⟩)
  | clean {id : Uuid} {c : AdminCall} {e : Gui.CommandError} {done : Bool}
      (found : s.calls id = some c) (stage : c.stage = .cleaning e) :
      Move user s (.call id (.remove done))
        ((if done then s.setRequest id none else s).setCall id ⟨c.action, .returned (.error e)⟩)
  | start {id : Uuid} : Move user s (.start id) (s.spawn id)
  | read {h : Nat} {p : Helper} {request : AdminRequest} (found : s.helpers[h]? = some p)
      (reads : readRequest user p.id (s.requests p.id) = .ok request) :
      Move user s (.helper h .read) (s.setHelper h p.id (.removing request.action))
  | remove {h : Nat} {p : Helper} {action : AdminAction} {f : MessageFile AdminRequest}
      (found : s.helpers[h]? = some p) (stage : p.stage = .removing action)
      (there : s.requests p.id = some f) :
      Move user s (.helper h (.remove none))
        ((s.setRequest p.id none).setHelper h p.id (.dispatching action))
  | dispatch {h : Nat} {p : Helper} {action : AdminAction} {ok : Bool} {message : Str}
      (found : s.helpers[h]? = some p) (stage : p.stage = .dispatching action) :
      Move user s (.helper h (.dispatch ok message))
        ((s.execute ⟨p.id, action, ok, message⟩).setHelper h p.id
          (.responding ⟨p.id, ok, message⟩))
  | answer {h : Nat} {p : Helper} {response : AdminResponse} (found : s.helpers[h]? = some p)
      (stage : p.stage = .responding response) :
      Move user s (.helper h (.create none))
        ((s.setResponse p.id (some ⟨.regular, 0o600, 0, .error cutOff⟩)).setHelper h p.id
          (.writing response))
  | fill {h : Nat} {p : Helper} {response : AdminResponse} (found : s.helpers[h]? = some p)
      (stage : p.stage = .writing response) :
      Move user s (.helper h (.write none))
        ((s.setResponse p.id ((s.responses p.id).map ({ · with body := .ok response }))).setHelper h
          p.id .syncing)
  | chown {h : Nat} {p : Helper} (found : s.helpers[h]? = some p) (stage : p.stage = .chowning) :
      Move user s (.helper h (.chown none))
        ((s.setResponse p.id ((s.responses p.id).map ({ · with owner := user }))).setHelper h p.id
          .settling)
  | proceed {h : Nat} {p : Helper} {a : HelperAct} {stage : HelperStage}
      (found : s.helpers[h]? = some p)
      (proceeds : stage = .chowning ∨ ∃ ok, stage = .exited ok) :
      Move user s (.helper h a) (s.setHelper h p.id stage)
  | tamper {id : Uuid} {file : Option (MessageFile AdminRequest)} :
      Move user s (.tamper id file) (s.setRequest id file)
  | forge {id : Uuid} {file : Option (MessageFile AdminResponse)} :
      Move user s (.forge id file) (s.setResponse id file)

variable {user : Nat} {s s' : Mailbox}

theorem stepCall_move {id : Uuid} {c : AdminCall} {a : CallAct} (found : s.calls id = some c)
    (h : s.stepCall user id c a = some s') : Move user s (.call id a) s' := by
  cases a with
  | create fault =>
      simp only [stepCall] at h
      split at h
      · next hstage =>
          split at h
          · next hfree =>
              cases h
              exact .create found hstage hfree
          · cases h
            exact .advance found (.failed _)
          · cases h
            exact .advance found (.failed _)
      · cases h
  | write fault =>
      simp only [stepCall] at h
      split at h
      · next hstage =>
          cases fault with
          | none =>
              cases h
              exact .write found hstage
          | some e =>
              cases h
              exact .advance found (.failed _)
      · cases h
  | sync fault =>
      simp only [stepCall] at h
      split at h
      · next hstage =>
          cases fault with
          | none =>
              cases h
              exact .advance found (hstage ▸ .synced)
          | some e =>
              cases h
              exact .advance found (.failed _)
      · cases h
  | elevate fault =>
      simp only [stepCall] at h
      split at h
      · next hstage =>
          cases fault with
          | none =>
              cases h
              exact .elevate found hstage
          | some e =>
              cases h
              refine .advance found (.abandoned ?_)
              cases e with
              | command error => exact (by decide : "admin_error".toList ≠ "admin_failed".toList)
              | spawn text => exact (by decide : "elevation_failed".toList ≠ "admin_failed".toList)
      · cases h
  | wait =>
      simp only [stepCall] at h
      split at h
      · next helper hstage =>
          split at h
          · cases h
            exact .advance found (hstage ▸ .woken)
          · cases h
            exact .advance found (.abandoned (by decide))
          · cases h
      · cases h
  | read =>
      simp only [stepCall] at h
      split at h
      · next hstage =>
          cases h
          exact .advance found (hstage ▸ .heard)
      · cases h
  | remove done =>
      simp only [stepCall] at h
      split at h
      · next response hstage =>
          cases h
          exact .settle found hstage
      · next e hstage =>
          cases h
          exact .clean found hstage
      · cases h
  | quit =>
      simp only [stepCall] at h
      split at h
      · cases h
      · cases h
        exact .advance found .quit

theorem stepHelper_move {h : Nat} {p : Helper} {a : HelperAct} (found : s.helpers[h]? = some p)
    (hs : s.stepHelper user h p a = some s') : Move user s (.helper h a) s' := by
  cases a with
  | read =>
      simp only [stepHelper] at hs
      split at hs
      · split at hs
        · next request hreads =>
            cases hs
            exact .read found hreads
        · cases hs
          exact .proceed found (.inr ⟨false, rfl⟩)
      · cases hs
  | remove fault =>
      simp only [stepHelper] at hs
      split at hs
      · next action hstage =>
          split at hs
          · next hthere =>
              cases hs
              exact .remove found hstage hthere
          · cases hs
            exact .proceed found (.inr ⟨false, rfl⟩)
      · cases hs
  | dispatch ok message =>
      simp only [stepHelper] at hs
      split at hs
      · next action hstage =>
          cases hs
          exact .dispatch found hstage
      · cases hs
  | create fault =>
      simp only [stepHelper] at hs
      split at hs
      · next response hstage =>
          split at hs
          · cases hs
            exact .answer found hstage
          · cases hs
            exact .proceed found (.inr ⟨false, rfl⟩)
      · cases hs
  | write fault =>
      simp only [stepHelper] at hs
      split at hs
      · next response hstage =>
          cases fault with
          | none =>
              cases hs
              exact .fill found hstage
          | some e =>
              cases hs
              exact .proceed found (.inr ⟨false, rfl⟩)
      · cases hs
  | sync fault =>
      simp only [stepHelper] at hs
      split at hs
      · cases hs
        refine .proceed found ?_
        cases fault with
        | none => exact .inl rfl
        | some e => exact .inr ⟨false, rfl⟩
      · cases hs
        exact .proceed found (.inr ⟨_, rfl⟩)
      · cases hs
  | chown fault =>
      simp only [stepHelper] at hs
      split at hs
      · next hstage =>
          cases fault with
          | none =>
              cases hs
              exact .chown found hstage
          | some e =>
              cases hs
              exact .proceed found (.inr ⟨false, rfl⟩)
      · cases hs
  | kill =>
      simp only [stepHelper] at hs
      split at hs
      · cases hs
      · cases hs
        exact .proceed found (.inr ⟨false, rfl⟩)

/-- Every step is one of the moves. -/
theorem step_move {a : Act} (h : step user s a = some s') : Move user s a s' := by
  cases a with
  | request id action =>
      simp only [step] at h
      split at h
      · next hfresh =>
          cases h
          exact .request hfresh
      · cases h
  | call id a =>
      obtain ⟨c, found, hs⟩ := Option.bind_eq_some_iff.mp h
      exact stepCall_move found hs
  | start id =>
      cases h
      exact .start
  | helper n a =>
      obtain ⟨p, found, hs⟩ := Option.bind_eq_some_iff.mp h
      exact stepHelper_move found hs
  | tamper id file =>
      cases h
      exact .tamper
  | forge id file =>
      cases h
      exact .forge

end Mailbox

end DnsRelay.Admin
