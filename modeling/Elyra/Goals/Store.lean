import Elyra.Framework.FirstMatch
import Elyra.Framework.Python
import Elyra.Framework.Text

namespace Elyra.Goals

def goalStatuses : List String := ["open", "review", "closed", "cancelled"]

/-- A goal is closed by an update only. -/
def goalCreateStatuses : List String := ["open", "review", "cancelled"]

def taskStatuses : List String := ["pending", "ready", "in_progress", "blocked", "done", "cancelled"]

def softCloseWarning : String :=
  "prefer review-work before close; set status=review first or pass force=true"

/-- A decoded object of the ledger: the document, a goal or a task. -/
abbrev Doc := Dict String Json

/-- What `goals.json` holds; a text is kept as what it decodes to. -/
inductive LedgerFile where
  | absent
  | undecodable
  | malformed
  | json (v : Json)

structure Store where
  file : LedgerFile
  goalCloseWithoutReview : Nat

/-- How the read of one call fails: in `is_file`, which raises, or in `read_text`. -/
inductive ReadFault where
  | none
  | stat
  | text
  deriving DecidableEq

/-- What one call meets: its faults, what `on_task_ready` raises, the time and the uuid. -/
structure Env where
  read : ReadFault
  writeFails : Bool
  hookError : Option PyErr
  now : String
  hex : String

namespace Env

def goalId (env : Env) : String := "g_" ++ env.hex

def taskId (env : Env) : String := "t_" ++ env.hex

end Env

def emptyDoc : Doc := Dict.empty.set "goals" (.arr [])

/-- `_load`. -/
def loadFile : ReadFault → LedgerFile → Except PyErr Doc
  | .stat, _ => .error .osError
  | _, .absent => .ok emptyDoc
  | .text, _ => .ok emptyDoc
  | .none, .undecodable => .error .unicodeDecodeError
  | .none, .malformed => .ok emptyDoc
  | .none, .json (.obj kvs) =>
    let data := Dict.ofList kvs
    match data.get? "goals" with
    | some (.arr _) => .ok data
    | _ => .ok (data.set "goals" (.arr []))
  | .none, .json _ => .ok emptyDoc

def load (env : Env) : Py Store Doc := fun s => ofExcept (loadFile env.read s.file) s

/-- `_save`: the new document replaces the file at once, or the file stays. -/
def save (env : Env) (doc : Doc) : Py Store Unit := fun s =>
  if env.writeFails then .error .osError s else .ok () { s with file := .json (.obj doc.items) }

def goalsOf (doc : Doc) : List Json :=
  match doc.get? "goals" with
  | some (.arr goals) => goals
  | _ => []

def withGoals (doc : Doc) (goals : List Json) : Doc := doc.set "goals" (.arr goals)

/-- `goal.get("tasks") or []`; what is no list has no tasks. -/
def tasksOf (goal : Doc) : List Json :=
  match goal.get? "tasks" with
  | some (.arr tasks) => tasks
  | _ => []

/-- An entry that is a dict with this id. -/
def entryWith (id : String) : Json → Option Doc
  | .obj kvs =>
    let d := Dict.ofList kvs
    if d.get? "id" = some (.str id) then some d else none
  | _ => none

/-- A goal with its task of this id. -/
def taskWith (id : String) : Json → Option (Doc × Doc)
  | .obj kvs =>
    let goal := Dict.ofList kvs
    ((tasksOf goal).findSome? (entryWith id)).map fun task => (goal, task)
  | _ => none

/-- `_find_goal`. -/
def findGoal (doc : Doc) (goalId : String) : Option Doc := (goalsOf doc).findSome? (entryWith goalId)

/-- `_find_task`. -/
def findTask (doc : Doc) (taskId : String) : Option (Doc × Doc) :=
  (goalsOf doc).findSome? (taskWith taskId)

/-- The goal that `_find_goal` found, changed in place. -/
def putGoal (doc : Doc) (goalId : String) (goal : Doc) : Doc :=
  withGoals doc (putFirst (fun x => (entryWith goalId x).isSome) (.obj goal.items) (goalsOf doc))

/-- The goal with the task of this id that `_find_task` found, changed in place. -/
def putTaskGoal (doc : Doc) (taskId : String) (goal : Doc) : Doc :=
  withGoals doc (putFirst (fun x => (taskWith taskId x).isSome) (.obj goal.items) (goalsOf doc))

/-- The task of this id changed in place in its goal. -/
def putTask (goal : Doc) (taskId : String) (task : Doc) : Doc :=
  goal.set "tasks"
    (.arr (putFirst (fun x => (entryWith taskId x).isSome) (.obj task.items) (tasksOf goal)))

def checkTitle : Json → Except PyErr String
  | .str title =>
    if stripText title = "" then .error (.valueError [.text "title must be a non-empty string"])
    else .ok (stripText title)
  | _ => .error (.valueError [.text "title must be a non-empty string"])

/-- What a call returns: the entry it wrote, with its warning or whether it became ready. -/
inductive Reply where
  | createdGoal (goal : Doc)
  | updatedGoal (goal : Doc) (warning : Option String)
  | createdTask (task : Doc)
  | updatedTask (task : Doc) (becameReady : Bool)

/-- What a call does to a loaded document: the document it saves, whether it counts a close
without review, and what follows the save. -/
structure Change where
  doc : Doc
  closes : Bool
  post : Except PyErr Unit
  reply : Reply

/-- Load, mutate, save. -/
def commit (env : Env) (mutate : Doc → Except PyErr Change) : Py Store Reply := do
  let doc ← load env
  let change ← ofExcept (mutate doc)
  if change.closes then
    modify fun s => { s with goalCloseWithoutReview := s.goalCloseWithoutReview + 1 }
  save env change.doc
  ofExcept change.post
  return change.reply

/-- `_fire_task_ready`. -/
def fireTaskReady (env : Env) : Except PyErr Unit :=
  match env.hookError with
  | some e => .error e
  | none => .ok ()

def context : Option Doc → List (String × Json)
  | some ctx => [("created_in_context", .obj ctx.items)]
  | none => []

/-- The status with which a goal may be created. -/
def checkCreateStatus (status : String) : Except PyErr Unit :=
  if status ∈ goalCreateStatuses then .ok ()
  else if status = "closed" then
    .error (.valueError [.text ("cannot create goal with status=closed; " ++
      "create open (or review/cancelled) then update_goal to close")])
  else .error (.valueError [.text "invalid goal status: ", .repr status])

def newGoal (env : Env) (title : String) (acceptance : Json) (status : String)
    (createdInContext : Option Doc) : Doc :=
  Dict.ofList ([("id", .str env.goalId), ("title", .str title), ("status", .str status),
    ("acceptance", acceptance), ("created_at", .str env.now), ("updated_at", .str env.now),
    ("tasks", .arr [])] ++ context createdInContext)

def appendGoal (goal : Doc) (doc : Doc) : Except PyErr Change :=
  .ok ⟨withGoals doc (goalsOf doc ++ [.obj goal.items]), false, .ok (), .createdGoal goal⟩

def createGoal (env : Env) (title acceptance : Json) (status : String)
    (createdInContext : Option Doc) : Py Store Reply := do
  ofExcept (checkCreateStatus status)
  let title ← ofExcept (checkTitle title)
  commit env (appendGoal (newGoal env title acceptance status createdInContext))

/-- `title is not None`: the title is checked and written. -/
def setTitle (entry : Doc) (title : Json) : Except PyErr Doc :=
  if title = .null then .ok entry
  else do
    let text ← checkTitle title
    return entry.set "title" (.str text)

/-- A status of an update: none, or one of the known. -/
def checkStatus (kind : String) (known : List String) (status : Option String) :
    Except PyErr Unit :=
  match status with
  | none => .ok ()
  | some status =>
    if status ∈ known then .ok ()
    else .error (.valueError [.text ("invalid " ++ kind ++ " status: "), .repr status])

/-- A value other than the `...` default is written. -/
def setGiven (entry : Doc) (key : String) (value : Option Json) : Doc :=
  match value with
  | some v => entry.set key v
  | none => entry

/-- The status of an update where it differs from the entry's. -/
def newStatus (entry : Doc) (status : Option String) : Option String :=
  status.filter fun status => entry.get? "status" ≠ some (.str status)

def setStatus (entry : Doc) (status : Option String) : Doc :=
  match newStatus entry status with
  | some status => entry.set "status" (.str status)
  | none => entry

def goalNotFound (goalId : String) : PyErr := .keyError [.text "goal not found: ", .repr goalId]

def editGoal (env : Env) (goalId : String) (title : Json) (status : Option String)
    (acceptance : Option Json) (force : Bool) (doc : Doc) : Except PyErr Change :=
  match findGoal doc goalId with
  | none => .error (goalNotFound goalId)
  | some goal => do
    checkStatus "goal" goalStatuses status
    let goal ← setTitle goal title
    let goal := setGiven goal "acceptance" acceptance
    let closes := decide (newStatus goal status = some "closed" ∧
      goal.get? "status" = some (.str "open"))
    let goal := (setStatus goal status).set "updated_at" (.str env.now)
    let warning := if closes && !force then some softCloseWarning else none
    return ⟨putGoal doc goalId goal, closes, .ok (), .updatedGoal goal warning⟩

/-- `_require_bool`. -/
def requireBool : Json → Except PyErr Bool
  | .bool b => .ok b
  | _ => .error .typeError

def updateGoal (env : Env) (goalId : String) (title : Json) (status : Option String)
    (acceptance : Option Json) (force : Json) : Py Store Reply := do
  let force ← ofExcept (requireBool force)
  commit env (editGoal env goalId title status acceptance force)

def newTask (env : Env) (goalId title status : String) (notes : Json)
    (createdInContext : Option Doc) : Doc :=
  Dict.ofList ([("id", .str env.taskId), ("goal_id", .str goalId), ("title", .str title),
    ("status", .str status), ("notes", notes), ("created_at", .str env.now),
    ("updated_at", .str env.now)] ++ context createdInContext)

def appendTask (env : Env) (goalId status : String) (task : Doc) (doc : Doc) :
    Except PyErr Change :=
  match findGoal doc goalId with
  | none => .error (goalNotFound goalId)
  | some goal =>
    let tasks := tasksOf goal ++ [.obj task.items]
    let goal := (goal.set "tasks" (.arr tasks)).set "updated_at" (.str env.now)
    .ok ⟨putGoal doc goalId goal, false, if status = "ready" then fireTaskReady env else .ok (),
      .createdTask task⟩

def createTask (env : Env) (goalId : String) (title : Json) (status : String) (notes : Json)
    (createdInContext : Option Doc) : Py Store Reply := do
  ofExcept (checkStatus "task" taskStatuses (some status))
  let title ← ofExcept (checkTitle title)
  commit env (appendTask env goalId status (newTask env goalId title status notes createdInContext))

def editTask (env : Env) (taskId : String) (title : Json) (status : Option String)
    (notes : Option Json) (doc : Doc) : Except PyErr Change :=
  match findTask doc taskId with
  | none => .error (.keyError [.text "task not found: ", .repr taskId])
  | some (goal, task) => do
    checkStatus "task" taskStatuses status
    let task ← setTitle task title
    let task := setGiven task "notes" notes
    let becameReady := decide (newStatus task status = some "ready")
    let task := (setStatus task status).set "updated_at" (.str env.now)
    let goal := (putTask goal taskId task).set "updated_at" (.str env.now)
    -- `task_copy["goal_id"]` is read after the save, before the hook.
    let post : Except PyErr Unit :=
      match task.get? "goal_id" with
      | none => .error (.keyError [.text "goal_id"])
      | some _ => if becameReady then fireTaskReady env else .ok ()
    return ⟨putTaskGoal doc taskId goal, false, post, .updatedTask task becameReady⟩

def updateTask (env : Env) (taskId : String) (title : Json) (status : Option String)
    (notes : Option Json) : Py Store Reply :=
  commit env (editTask env taskId title status notes)

inductive Call where
  | createGoal (title acceptance : Json) (status : String) (createdInContext : Option Doc)
  | updateGoal (goalId : String) (title : Json) (status : Option String)
      (acceptance : Option Json) (force : Json)
  | createTask (goalId : String) (title : Json) (status : String) (notes : Json)
      (createdInContext : Option Doc)
  | updateTask (taskId : String) (title : Json) (status : Option String) (notes : Option Json)

def apply : Call → Env → Py Store Reply
  | .createGoal title acceptance status ctx, env => createGoal env title acceptance status ctx
  | .updateGoal goalId title status acceptance force, env =>
    updateGoal env goalId title status acceptance force
  | .createTask goalId title status notes ctx, env => createTask env goalId title status notes ctx
  | .updateTask taskId title status notes, env => updateTask env taskId title status notes

end Elyra.Goals
