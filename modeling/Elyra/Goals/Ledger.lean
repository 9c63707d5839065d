import Elyra.Framework.Effects
import Elyra.Framework.Run
import Elyra.Goals.Store

namespace Elyra.Goals

/-- What a read without fault finds in the file. -/
def fileDoc (file : LedgerFile) : Doc :=
  match loadFile .none file with
  | .ok doc => doc
  | .error _ => emptyDoc

/-- The fields of a goal: its tasks are entries of their own, and their calls too write
`updated_at`. -/
def goalFields (goal : Doc) : Doc := goal.filterKeys fun key => key ∉ ["tasks", "updated_at"]

/-- The entries that calls returned, each as the last call on it returned it. -/
structure Expected where
  goals : String → Option Doc
  tasks : String → Option Doc

namespace Expected

def none : Expected := ⟨fun _ => .none, fun _ => .none⟩

def noteReply (e : Expected) : Call → Env → Reply → Expected
  | .createGoal .., env, .createdGoal goal =>
    { e with goals := fun id => if id = env.goalId then some goal else e.goals id }
  | .updateGoal goalId .., _, .updatedGoal goal _ =>
    { e with goals := fun id => if id = goalId then (e.goals id).map fun _ => goal else e.goals id }
  | .createTask .., env, .createdTask task =>
    { e with tasks := fun id => if id = env.taskId then some task else e.tasks id }
  | .updateTask taskId .., _, .updatedTask task _ =>
    { e with tasks := fun id => if id = taskId then (e.tasks id).map fun _ => task else e.tasks id }
  | _, _, _ => e

/-- A call that raises adds nothing. -/
def note (e : Expected) (call : Call) (env : Env) : EStateM.Result PyErr Store Reply → Expected
  | .ok reply _ => e.noteReply call env reply
  | .error _ _ => e

end Expected

/-- Every entry whose creating call returned is in the file as the last call left it. -/
structure Kept (e : Expected) (doc : Doc) : Prop where
  goals : ∀ id goal, e.goals id = some goal →
    (findGoal doc id).map goalFields = some (goalFields goal)
  tasks : ∀ id task, e.tasks id = some task → (findTask doc id).map Prod.snd = some task

/-- One call on a store, with the entries expected of the calls so far. -/
def step (s : Store × Expected) (c : Call × Env) : Store × Expected :=
  let result := apply c.1 c.2 s.1
  (after result, s.2.note c.1 c.2 result)

/-- The uuid of a create is that of no entry of the file. -/
def FreshId (s : Store × Expected) : Call × Env → Prop
  | (.createGoal .., env) => findGoal (fileDoc s.1.file) env.goalId = none
  | (.createTask .., env) => findTask (fileDoc s.1.file) env.taskId = none
  | _ => True

/-- A call that raises leaves the file. -/
def UnchangedOnError (s : Store × Expected) (c : Call × Env) : Prop :=
  ∀ e s', apply c.1 c.2 s.1 = .error e s' → s'.file = s.1.file

/-- Of a call whose write goes through: a created goal over goals that its read failed on, a task
without `goal_id`, or a hook that raises. -/
def Slips (s : Store × Expected) : Call × Env → Prop
  | (.createGoal title _ status _, env) =>
    env.writeFails = false ∧ checkCreateStatus status = .ok () ∧ (checkTitle title).isOk ∧
      env.read = .text ∧ goalsOf (fileDoc s.1.file) ≠ []
  | (.updateGoal .., _) => False
  | (.createTask goalId title status _ _, env) =>
    env.writeFails = false ∧ (checkTitle title).isOk ∧ env.hookError.isSome ∧ status = "ready" ∧
      ∃ doc, loadFile env.read s.1.file = .ok doc ∧ (findGoal doc goalId).isSome
  | (.updateTask taskId title status _, env) =>
    env.writeFails = false ∧ checkStatus "task" taskStatuses status = .ok () ∧
      (title = .null ∨ (checkTitle title).isOk) ∧
      ∃ doc found, loadFile env.read s.1.file = .ok doc ∧ findTask doc taskId = some found ∧
        (found.2.get? "goal_id" = none ∨
          env.hookError.isSome ∧ status = some "ready" ∧
            found.2.get? "status" ≠ some (.str "ready"))

/-- What a call makes of the document it loads. -/
def change (env : Env) (doc : Doc) : Call → Except PyErr Change
  | .createGoal title acceptance status ctx => do
    checkCreateStatus status
    let title ← checkTitle title
    appendGoal (newGoal env title acceptance status ctx) doc
  | .updateGoal goalId title status acceptance force => do
    let force ← requireBool force
    editGoal env goalId title status acceptance force doc
  | .createTask goalId title status notes ctx => do
    checkStatus "task" taskStatuses (some status)
    let title ← checkTitle title
    appendTask env goalId status (newTask env goalId title status notes ctx) doc
  | .updateTask taskId title status notes => editTask env taskId title status notes doc

section Calls

variable {env : Env} {s : Store}

/-- A call either raises with the file as it was, or saves what it made of the loaded document. -/
def Outcome (env : Env) (s : Store) (mutate : Doc → Except PyErr Change)
    (r : EStateM.Result PyErr Store Reply) : Prop :=
  (∃ e s', r = .error e s' ∧ s'.file = s.file) ∨
    ∃ doc c s', loadFile env.read s.file = .ok doc ∧ mutate doc = .ok c ∧
      env.writeFails = false ∧ s'.file = .json (.obj c.doc.items) ∧
      r = match c.post with
        | .ok () => .ok c.reply s'
        | .error e => .error e s'

/-- The state in which a change is saved. -/
def counted (s : Store) (c : Change) : Store :=
  if c.closes then { s with goalCloseWithoutReview := s.goalCloseWithoutReview + 1 } else s

theorem file_counted (s : Store) (c : Change) : (counted s c).file = s.file := by
  unfold counted
  split <;> rfl

theorem commit_eq (mutate : Doc → Except PyErr Change) :
    commit env mutate s =
      match loadFile env.read s.file with
      | .error e => .error e s
      | .ok doc =>
        match mutate doc with
        | .error e => .error e s
        | .ok c =>
          if env.writeFails then .error .osError (counted s c)
          else
            match c.post with
            | .ok () => .ok c.reply { counted s c with file := .json (.obj c.doc.items) }
            | .error e => .error e { counted s c with file := .json (.obj c.doc.items) } := by
  obtain ⟨read, writeFails, hookError, now, hex⟩ := env
  simp only [commit, load, ofExcept, run_bind]
  cases loadFile read s.file with
  | error e => rfl
  | ok doc =>
    simp only
    cases mutate doc with
    | error e => rfl
    | ok c =>
      obtain ⟨d, closes, post, reply⟩ := c
      cases closes <;> cases writeFails <;> cases post <;> rfl

theorem commit_outcome (mutate : Doc → Except PyErr Change) :
    Outcome env s mutate (commit env mutate s) := by
  rw [commit_eq]
  cases hload : loadFile env.read s.file with
  | error e => exact .inl ⟨e, s, rfl, rfl⟩
  | ok doc =>
    simp only
    cases hmut : mutate doc with
    | error e => exact .inl ⟨e, s, rfl, rfl⟩
    | ok c =>
      simp only
      by_cases hw : env.writeFails = true
      · left
        rw [if_pos hw]
        exact ⟨_, _, rfl, file_counted s c⟩
      · right
        rw [if_neg hw]
        exact ⟨doc, c, _, hload, hmut, Bool.eq_false_iff.mpr hw, rfl, rfl⟩

/-- A check before the load raises with the file as it was. -/
theorem checked_outcome {α : Type} (check : Except PyErr α) (mutate : α → Doc → Except PyErr Change) :
    Outcome env s (fun doc => check >>= fun a => mutate a doc)
      ((ofExcept check >>= fun a => commit env (mutate a)) s) := by
  cases hcheck : check with
  | error e => exact .inl ⟨e, s, rfl, rfl⟩
  | ok a => exact commit_outcome (mutate a)

theorem apply_outcome (call : Call) :
    Outcome env s (fun doc => change env doc call) (apply call env s) := by
  cases call with
  | createGoal title acceptance status ctx =>
    cases hstatus : checkCreateStatus status with
    | error e =>
      left
      refine ⟨e, s, ?_, rfl⟩
      rw [apply, createGoal, hstatus]
      rfl
    | ok u =>
      have h : Outcome env s _ _ := checked_outcome (checkTitle title) fun title =>
        appendGoal (newGoal env title acceptance status ctx)
      simp only [apply, createGoal, change, hstatus]
      exact h
  | updateGoal goalId title status acceptance force =>
    exact checked_outcome (requireBool force) fun force =>
      editGoal env goalId title status acceptance force
  | createTask goalId title status notes ctx =>
    cases hstatus : checkStatus "task" taskStatuses (some status) with
    | error e =>
      left
      refine ⟨e, s, ?_, rfl⟩
      rw [apply, createTask, hstatus]
      rfl
    | ok u =>
      have h : Outcome env s _ _ := checked_outcome (checkTitle title) fun title =>
        appendTask env goalId status (newTask env goalId title status notes ctx)
      simp only [apply, createTask, change, hstatus]
      exact h
  | updateTask taskId title status notes =>
    exact commit_outcome (editTask env taskId title status notes)

end Calls

section Entries

variable {doc : Doc} {id : String}

@[simp] theorem goalsOf_withGoals (goals : List Json) : goalsOf (withGoals doc goals) = goals := by
  rw [goalsOf, withGoals, Dict.get?_set_self]

theorem fileDoc_withGoals (goals : List Json) :
    fileDoc (.json (.obj (withGoals doc goals).items)) = withGoals doc goals := by
  have hgoals : (withGoals doc goals).get? "goals" = some (.arr goals) := Dict.get?_set_self _ _ _
  simp only [fileDoc, loadFile, Dict.ofList_items, hgoals]

/-- A load that succeeds finds the goals of the file, or none where the read failed. -/
theorem goalsOf_loaded {read : ReadFault} {file : LedgerFile}
    (h : loadFile read file = .ok doc) :
    goalsOf doc = goalsOf (fileDoc file) ∨ read = .text ∧ goalsOf doc = [] := by
  have hempty : goalsOf emptyDoc = [] := by
    rw [goalsOf, emptyDoc, Dict.get?_set_self]
  cases read with
  | none =>
    left
    rw [fileDoc, h]
  | stat => cases file <;> cases h
  | text =>
    right
    cases file <;> cases h <;> exact ⟨rfl, hempty⟩

theorem entryWith_items (d : Doc) :
    entryWith id (.obj d.items) = if d.get? "id" = some (.str id) then some d else none := by
  simp only [entryWith, Dict.ofList_items]

theorem taskWith_items (d : Doc) : taskWith id (.obj d.items) =
    ((tasksOf d).findSome? (entryWith id)).map fun task => (d, task) := by
  simp only [taskWith, Dict.ofList_items]

/-- An entry with an id reads as the dict that it is. -/
theorem entryWith_some {x : Json} {d : Doc} (h : entryWith id x = some d) :
    d.get? "id" = some (.str id) ∧ (∀ i, entryWith i x = entryWith i (.obj d.items)) ∧
      ∀ i, taskWith i x = taskWith i (.obj d.items) := by
  cases x with
  | obj kvs =>
    simp only [entryWith] at h
    split at h
    · cases h
      refine ⟨by assumption, ?_, ?_⟩
      · intro i
        rw [entryWith_items]
        rfl
      · intro i
        rw [taskWith_items]
        rfl
    · cases h
  | _ => cases h

theorem taskWith_some {x : Json} {d t : Doc} (h : taskWith id x = some (d, t)) :
    (tasksOf d).findSome? (entryWith id) = some t ∧
      (∀ i, entryWith i x = entryWith i (.obj d.items)) ∧
      ∀ i, taskWith i x = taskWith i (.obj d.items) := by
  cases x with
  | obj kvs =>
    simp only [taskWith, Option.map_eq_some_iff, Prod.mk.injEq] at h
    obtain ⟨task, htask, rfl, rfl⟩ := h
    refine ⟨htask, ?_, ?_⟩
    · intro i
      rw [entryWith_items]
      rfl
    · intro i
      rw [taskWith_items]
      rfl
  | _ => cases h

/-- Two goals of one id with the same fields apart from tasks are seen as one. -/
theorem goal_seen {d d' : Doc} (hid : d'.get? "id" = d.get? "id")
    (hfields : goalFields d' = goalFields d) :
    (entryWith id (.obj d'.items)).map goalFields =
      (entryWith id (.obj d.items)).map goalFields := by
  rw [entryWith_items, entryWith_items, hid]
  by_cases h : d.get? "id" = some (.str id)
  · rw [if_pos h, if_pos h, Option.map_some, Option.map_some, hfields]
  · rw [if_neg h, if_neg h]

/-- Two goals whose tasks answer alike are seen as one by the search for a task. -/
theorem task_seen {d d' : Doc}
    (h : (tasksOf d').findSome? (entryWith id) = (tasksOf d).findSome? (entryWith id)) :
    (taskWith id (.obj d'.items)).map Prod.snd = (taskWith id (.obj d.items)).map Prod.snd := by
  rw [taskWith_items, taskWith_items, h, Option.map_map, Option.map_map]
  rfl

theorem goalFields_set_tasks (d : Doc) (v : Json) : goalFields (d.set "tasks" v) = goalFields d :=
  Dict.filterKeys_set _ d "tasks" v (by decide)

theorem goalFields_set_updated (d : Doc) (v : Json) :
    goalFields (d.set "updated_at" v) = goalFields d :=
  Dict.filterKeys_set _ d "updated_at" v (by decide)

theorem tasksOf_congr {d d' : Doc} (h : d'.get? "tasks" = d.get? "tasks") :
    tasksOf d' = tasksOf d := by
  rw [tasksOf, tasksOf, h]

end Entries
end Elyra.Goals
