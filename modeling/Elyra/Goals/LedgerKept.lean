import Elyra.Goals.Ledger

namespace Elyra.Goals

section Kept

variable {e : Expected} {doc : Doc}

theorem findGoal_withGoals (goals : List Json) (id : String) :
    findGoal (withGoals doc goals) id = goals.findSome? (entryWith id) := by
  rw [findGoal, goalsOf_withGoals]

theorem findTask_withGoals (goals : List Json) (id : String) :
    findTask (withGoals doc goals) id = goals.findSome? (taskWith id) := by
  rw [findTask, goalsOf_withGoals]

/-- What is found among the goals is found with one more behind them. -/
theorem findSome?_before {α : Type} {f : Json → Option α} {xs ys : List Json}
    {view : α → Doc} {d : Doc} (h : (xs.findSome? f).map view = some d) :
    ((xs ++ ys).findSome? f).map view = some d := by
  obtain ⟨a, ha, -⟩ := Option.map_eq_some_iff.mp h
  rw [List.findSome?_append, ha, Option.some_or, ← ha, h]

/-- A new goal without tasks leaves the others to be found. -/
theorem kept_appendGoal {goal : Doc} {goalId : String} (hk : Kept e doc)
    (hid : goal.get? "id" = some (.str goalId)) (hfresh : findGoal doc goalId = none) :
    Kept { e with goals := fun id => if id = goalId then some goal else e.goals id }
      (withGoals doc (goalsOf doc ++ [.obj goal.items])) := by
  constructor
  · intro id g hg
    rw [findGoal_withGoals]
    by_cases hnew : id = goalId
    · have hgoal : goal = g := by simpa [hnew] using hg
      have hnone : (goalsOf doc).findSome? (entryWith id) = none := by
        rw [hnew]
        exact hfresh
      rw [List.findSome?_append, hnone, Option.none_or, List.findSome?_singleton, entryWith_items,
        hnew, if_pos hid, hgoal]
      rfl
    · have hold : e.goals id = some g := by simpa [hnew] using hg
      exact findSome?_before (hk.goals id g hold)
  · intro id t ht
    rw [findTask_withGoals]
    exact findSome?_before (hk.tasks id t ht)

/-- A goal changed in fields other than its id and tasks. -/
theorem kept_putGoal {goal goal' : Doc} {goalId : String} (hk : Kept e doc)
    (hfound : findGoal doc goalId = some goal) (hid : goal'.get? "id" = goal.get? "id")
    (htasks : goal'.get? "tasks" = goal.get? "tasks") :
    Kept { e with goals := fun id =>
        if id = goalId then (e.goals id).map fun _ => goal' else e.goals id }
      (putGoal doc goalId goal') := by
  obtain ⟨x, hx, hentry⟩ := find?_of_findSome? hfound
  obtain ⟨hgoal, hsame, hsameTask⟩ := entryWith_some hentry
  constructor
  · intro id g hg
    rw [putGoal, findGoal_withGoals]
    by_cases hthis : id = goalId
    · have hhit : entryWith goalId (.obj goal'.items) = some goal' := by
        rw [entryWith_items, if_pos (by rw [hid, hgoal])]
      have hg' : goal' = g := by
        simp only [hthis, if_true, Option.map_eq_some_iff] at hg
        obtain ⟨_, -, heq⟩ := hg
        exact heq
      rw [hthis, findSome?_putFirst_hit (fun _ => rfl) hx hhit, hg']
      rfl
    · have hold : e.goals id = some g := by simpa [hthis] using hg
      rw [← hk.goals id g hold]
      refine map_findSome?_putFirst ?_
      intro y hy
      rw [hx] at hy
      cases hy
      have hother : goal.get? "id" ≠ some (.str id) := by
        rw [hgoal]
        intro heq
        cases heq
        exact hthis rfl
      rw [hsame, entryWith_items, entryWith_items, hid, if_neg hother, if_neg hother]
  · intro id t ht
    rw [← hk.tasks id t ht, putGoal, findTask_withGoals]
    refine map_findSome?_putFirst ?_
    intro y hy
    rw [hx] at hy
    cases hy
    rw [hsameTask]
    exact task_seen (by rw [tasksOf_congr htasks])

/-- A new task at the end of a goal's. -/
theorem kept_putGoal_task {goal task : Doc} {goalId taskId : String} {time : Json}
    (hk : Kept e doc) (hfound : findGoal doc goalId = some goal)
    (hid : task.get? "id" = some (.str taskId)) (hfresh : findTask doc taskId = none) :
    Kept { e with tasks := fun id => if id = taskId then some task else e.tasks id }
      (putGoal doc goalId
        ((goal.set "tasks" (.arr (tasksOf goal ++ [.obj task.items]))).set "updated_at" time)) := by
  obtain ⟨x, hx, hentry⟩ := find?_of_findSome? hfound
  obtain ⟨hgoal, hsame, hsameTask⟩ := entryWith_some hentry
  generalize hnew : (goal.set "tasks" (.arr (tasksOf goal ++ [.obj task.items]))).set
    "updated_at" time = goal'
  have htasks : tasksOf goal' = tasksOf goal ++ [.obj task.items] := by
    rw [← hnew, tasksOf, Dict.get?_set_ne _ _ (by decide), Dict.get?_set_self]
  have hfields : goalFields goal' = goalFields goal := by
    rw [← hnew, goalFields_set_updated, goalFields_set_tasks]
  have hgoalId : goal'.get? "id" = goal.get? "id" := by
    rw [← hnew, Dict.get?_set_ne _ _ (by decide), Dict.get?_set_ne _ _ (by decide)]
  constructor
  · intro id g hg
    rw [← hk.goals id g hg, putGoal, findGoal_withGoals]
    refine map_findSome?_putFirst ?_
    intro y hy
    rw [hx] at hy
    cases hy
    rw [hsame]
    exact goal_seen hgoalId hfields
  · intro id t ht
    rw [putGoal, findTask_withGoals]
    by_cases hthis : id = taskId
    · have ht' : task = t := by simpa [hthis] using ht
      have hnone : (goalsOf doc).findSome? (taskWith taskId) = none := hfresh
      have hmem : x ∈ goalsOf doc := List.mem_of_find?_eq_some hx
      have hold : (tasksOf goal).findSome? (entryWith taskId) = none := by
        have hxnone := List.findSome?_eq_none_iff.mp hnone x hmem
        rw [hsameTask, taskWith_items] at hxnone
        exact Option.map_eq_none_iff.mp hxnone
      have hhit : taskWith taskId (.obj goal'.items) = some (goal', task) := by
        rw [taskWith_items, htasks, List.findSome?_append, hold, Option.none_or,
          List.findSome?_singleton, entryWith_items, if_pos hid]
        rfl
      rw [hthis, findSome?_putFirst_new hnone hx hhit, ht']
      rfl
    · have hold : e.tasks id = some t := by simpa [hthis] using ht
      rw [← hk.tasks id t hold]
      refine map_findSome?_putFirst ?_
      intro y hy
      rw [hx] at hy
      cases hy
      have hother : task.get? "id" ≠ some (.str id) := by
        rw [hid]
        intro heq
        cases heq
        exact hthis rfl
      rw [hsameTask]
      apply task_seen
      rw [htasks, List.findSome?_append, List.findSome?_singleton, entryWith_items, if_neg hother,
        Option.or_none]

/-- A task changed in fields other than its id. -/
theorem kept_putTaskGoal {goal task task' : Doc} {taskId : String} {time : Json} (hk : Kept e doc)
    (hfound : findTask doc taskId = some (goal, task))
    (hid : task'.get? "id" = task.get? "id") :
    Kept { e with tasks := fun id =>
        if id = taskId then (e.tasks id).map fun _ => task' else e.tasks id }
      (putTaskGoal doc taskId ((putTask goal taskId task').set "updated_at" time)) := by
  obtain ⟨x, hx, hentry⟩ := find?_of_findSome? hfound
  obtain ⟨htask, hsame, hsameTask⟩ := taskWith_some hentry
  obtain ⟨z, hz, hentryTask⟩ := find?_of_findSome? htask
  obtain ⟨htaskId, hsameEntry, -⟩ := entryWith_some hentryTask
  generalize hnew : (putTask goal taskId task').set "updated_at" time = goal'
  have htasks : tasksOf goal' =
      putFirst (fun x => (entryWith taskId x).isSome) (.obj task'.items) (tasksOf goal) := by
    rw [← hnew, tasksOf, Dict.get?_set_ne _ _ (by decide), putTask, Dict.get?_set_self]
  have hfields : goalFields goal' = goalFields goal := by
    rw [← hnew, goalFields_set_updated, putTask, goalFields_set_tasks]
  have hgoalId : goal'.get? "id" = goal.get? "id" := by
    rw [← hnew, Dict.get?_set_ne _ _ (by decide), putTask, Dict.get?_set_ne _ _ (by decide)]
  constructor
  · intro id g hg
    rw [← hk.goals id g hg, putTaskGoal, findGoal_withGoals]
    refine map_findSome?_putFirst ?_
    intro y hy
    rw [hx] at hy
    cases hy
    rw [hsame]
    exact goal_seen hgoalId hfields
  · intro id t ht
    rw [putTaskGoal, findTask_withGoals]
    by_cases hthis : id = taskId
    · have ht' : task' = t := by
        simp only [hthis, if_true, Option.map_eq_some_iff] at ht
        obtain ⟨_, -, heq⟩ := ht
        exact heq
      have hentry' : entryWith taskId (.obj task'.items) = some task' := by
        rw [entryWith_items, if_pos (by rw [hid, htaskId])]
      have hhit : taskWith taskId (.obj goal'.items) = some (goal', task') := by
        rw [taskWith_items, htasks, findSome?_putFirst_hit (fun _ => rfl) hz hentry']
        rfl
      rw [hthis, findSome?_putFirst_hit (fun _ => rfl) hx hhit, ht']
      rfl
    · have hold : e.tasks id = some t := by simpa [hthis] using ht
      rw [← hk.tasks id t hold]
      refine map_findSome?_putFirst ?_
      intro y hy
      rw [hx] at hy
      cases hy
      rw [hsameTask]
      apply task_seen
      rw [htasks]
      apply findSome?_putFirst_same
      intro y hy
      rw [hz] at hy
      cases hy
      have hother : task.get? "id" ≠ some (.str id) := by
        rw [htaskId]
        intro heq
        cases heq
        exact hthis rfl
      rw [hsameEntry, entryWith_items, entryWith_items, hid, if_neg hother, if_neg hother]

/-- Only the goals of the document count. -/
theorem Kept.congr {doc' : Doc} (hk : Kept e doc) (h : goalsOf doc' = goalsOf doc) :
    Kept e doc' := by
  constructor
  · intro id g hg
    rw [findGoal, h]
    exact hk.goals id g hg
  · intro id t ht
    rw [findTask, h]
    exact hk.tasks id t ht

end Kept

section Edits

variable {entry entry' : Doc} {key : String}

theorem setTitle_get? {title : Json} (h : setTitle entry title = .ok entry')
    (hkey : key ≠ "title") : entry'.get? key = entry.get? key := by
  unfold setTitle at h
  split at h
  · cases h
    rfl
  · obtain ⟨text, -, h⟩ := except_bind_ok h
    cases h
    exact Dict.get?_set_ne _ _ (Ne.symm hkey)

theorem setGiven_get? {written : String} (value : Option Json) (hkey : key ≠ written) :
    (setGiven entry written value).get? key = entry.get? key := by
  cases value with
  | none => rfl
  | some v => exact Dict.get?_set_ne _ _ (Ne.symm hkey)

theorem setStatus_get? (status : Option String) (hkey : key ≠ "status") :
    (setStatus entry status).get? key = entry.get? key := by
  unfold setStatus
  split
  · exact Dict.get?_set_ne _ _ (Ne.symm hkey)
  · rfl

variable {env : Env} {doc : Doc} {c : Change}

theorem editGoal_ok {goalId : String} {title : Json} {status : Option String}
    {acceptance : Option Json} {force : Bool}
    (h : editGoal env goalId title status acceptance force doc = .ok c) :
    ∃ goal goal' warning, findGoal doc goalId = some goal ∧
      goal'.get? "id" = goal.get? "id" ∧ goal'.get? "tasks" = goal.get? "tasks" ∧
      c.doc = putGoal doc goalId goal' ∧ c.post = .ok () ∧
      c.reply = .updatedGoal goal' warning := by
  unfold editGoal at h
  cases hfound : findGoal doc goalId with
  | none =>
    rw [hfound] at h
    cases h
  | some goal =>
    rw [hfound] at h
    obtain ⟨_, -, h⟩ := except_bind_ok h
    obtain ⟨titled, htitle, h⟩ := except_bind_ok h
    cases h
    have hkept {key : String} (h1 : key ≠ "title") (h2 : key ≠ "acceptance")
        (h3 : key ≠ "status") (h4 : key ≠ "updated_at") :
        ((setStatus (setGiven titled "acceptance" acceptance) status).set "updated_at"
          (.str env.now)).get? key = goal.get? key := by
      rw [Dict.get?_set_ne _ _ (Ne.symm h4), setStatus_get? _ h3, setGiven_get? _ h2,
        setTitle_get? htitle h1]
    exact ⟨goal, _, _, rfl, hkept (by decide) (by decide) (by decide) (by decide),
      hkept (by decide) (by decide) (by decide) (by decide), rfl, rfl, rfl⟩

theorem editTask_ok {taskId : String} {title : Json} {status : Option String}
    {notes : Option Json} (h : editTask env taskId title status notes doc = .ok c) :
    ∃ goal task task' time, findTask doc taskId = some (goal, task) ∧
      checkStatus "task" taskStatuses status = .ok () ∧
      (title = .null ∨ (checkTitle title).isOk) ∧ task'.get? "id" = task.get? "id" ∧
      c.doc = putTaskGoal doc taskId ((putTask goal taskId task').set "updated_at" time) ∧
      (task.get? "goal_id" ≠ none →
        (env.hookError.isSome → status = some "ready" →
          task.get? "status" = some (.str "ready")) → c.post = .ok ()) ∧
      ∃ becameReady, c.reply = .updatedTask task' becameReady := by
  unfold editTask at h
  cases hfound : findTask doc taskId with
  | none =>
    rw [hfound] at h
    cases h
  | some found =>
    obtain ⟨goal, task⟩ := found
    rw [hfound] at h
    obtain ⟨_, hstatus, h⟩ := except_bind_ok h
    obtain ⟨titled, htitle, h⟩ := except_bind_ok h
    have hchecked : title = .null ∨ (checkTitle title).isOk := by
      unfold setTitle at htitle
      split at htitle
      · exact .inl (by assumption)
      · obtain ⟨text, htext, -⟩ := except_bind_ok htitle
        right
        rw [htext]
        rfl
    cases h
    have hkept {key : String} (h1 : key ≠ "title") (h2 : key ≠ "notes")
        (h3 : key ≠ "status") (h4 : key ≠ "updated_at") :
        ((setStatus (setGiven titled "notes" notes) status).set "updated_at"
          (.str env.now)).get? key = task.get? key := by
      rw [Dict.get?_set_ne _ _ (Ne.symm h4), setStatus_get? _ h3, setGiven_get? _ h2,
        setTitle_get? htitle h1]
    refine ⟨goal, task, _, .str env.now, rfl, hstatus, hchecked,
      hkept (by decide) (by decide) (by decide) (by decide), rfl, ?_, _, rfl⟩
    intro hgoalId hhook
    have hprev : (setGiven titled "notes" notes).get? "status" = task.get? "status" := by
      rw [setGiven_get? _ (by decide), setTitle_get? htitle (by decide)]
    obtain ⟨v, hv⟩ := Option.ne_none_iff_exists'.mp hgoalId
    have hgoal : ((setStatus (setGiven titled "notes" notes) status).set "updated_at"
        (.str env.now)).get? "goal_id" = some v := by
      rw [hkept (by decide) (by decide) (by decide) (by decide), hv]
    simp only [hgoal]
    by_cases hready : newStatus (setGiven titled "notes" notes) status = some "ready"
    · rw [if_pos (by simpa using hready)]
      obtain ⟨hgiven, hdiffers⟩ := Option.filter_eq_some_iff.mp hready
      rw [hprev] at hdiffers
      cases hhookError : env.hookError with
      | none => simp only [fireTaskReady, hhookError]
      | some err =>
        have hsame := hhook (by rw [hhookError]; rfl) hgiven
        simp [hsame] at hdiffers
    · rw [if_neg (by simpa using hready)]

end Edits

section New

variable (env : Env) (title status : String) (value : Json) (ctx : Option Doc)

theorem newGoal_id : (newGoal env title value status ctx).get? "id" = some (.str env.goalId) := by
  cases ctx <;> simp only [newGoal, context, List.append_nil] <;>
    rw [Dict.get?_ofList _ (by simp)] <;> rfl

theorem newTask_id (goalId : String) :
    (newTask env goalId title status value ctx).get? "id" = some (.str env.taskId) := by
  cases ctx <;> simp only [newTask, context, List.append_nil] <;>
    rw [Dict.get?_ofList _ (by simp)] <;> rfl

end New

section Step

variable {s : Store × Expected} {env : Env} {doc : Doc} {c : Change}

/-- An entry is found in the document of a read that failed only where it is in the file. -/
theorem goalsOf_of_found {α : Type} {f : Json → Option α} {a : α}
    (hload : loadFile env.read s.1.file = .ok doc) (h : (goalsOf doc).findSome? f = some a) :
    goalsOf doc = goalsOf (fileDoc s.1.file) := by
  obtain hsame | ⟨-, hnil⟩ := goalsOf_loaded hload
  · exact hsame
  · rw [hnil] at h
    cases h

/-- A call that does not slip saves the entries of the file with its own. -/
theorem change_kept (call : Call) (hload : loadFile env.read s.1.file = .ok doc)
    (hchange : change env doc call = .ok c) (hwrite : env.writeFails = false)
    (hfresh : FreshId s (call, env)) (hslip : ¬Slips s (call, env))
    (hk : Kept s.2 (fileDoc s.1.file)) :
    c.post = .ok () ∧ fileDoc (.json (.obj c.doc.items)) = c.doc ∧
      Kept (s.2.noteReply call env c.reply) c.doc := by
  cases call with
  | createGoal title acceptance status ctx =>
    obtain ⟨_, hstatus, hchange⟩ := except_bind_ok hchange
    obtain ⟨text, htext, hchange⟩ := except_bind_ok hchange
    cases hchange
    have hsame : goalsOf doc = goalsOf (fileDoc s.1.file) := by
      obtain hsame | ⟨hread, hnil⟩ := goalsOf_loaded hload
      · exact hsame
      · by_contra hne
        rw [hnil] at hne
        exact hslip ⟨hwrite, hstatus, by rw [htext]; rfl, hread, Ne.symm hne⟩
    have hnone : findGoal doc env.goalId = none := by
      rw [findGoal, hsame]
      exact hfresh
    exact ⟨rfl, fileDoc_withGoals _,
      kept_appendGoal (hk.congr hsame) (newGoal_id env text status acceptance ctx) hnone⟩
  | updateGoal goalId title status acceptance force =>
    obtain ⟨_, -, hchange⟩ := except_bind_ok hchange
    obtain ⟨goal, goal', warning, hfound, hid, htasks, hdoc, hpost, hreply⟩ :=
      editGoal_ok hchange
    rw [hdoc, hreply]
    exact ⟨hpost, fileDoc_withGoals _,
      kept_putGoal (hk.congr (goalsOf_of_found hload hfound)) hfound hid htasks⟩
  | createTask goalId title status notes ctx =>
    obtain ⟨_, -, hchange⟩ := except_bind_ok hchange
    obtain ⟨text, htext, hchange⟩ := except_bind_ok hchange
    unfold appendTask at hchange
    cases hfound : findGoal doc goalId with
    | none =>
      rw [hfound] at hchange
      cases hchange
    | some goal =>
      rw [hfound] at hchange
      cases hchange
      have hsame := goalsOf_of_found hload hfound
      have hnone : findTask doc env.taskId = none := by
        rw [findTask, hsame]
        exact hfresh
      refine ⟨?_, fileDoc_withGoals _,
        kept_putGoal_task (hk.congr hsame) hfound (newTask_id env text status notes ctx goalId)
          hnone⟩
      by_cases hready : status = "ready"
      · cases hhook : env.hookError with
        | none => simp only [hready, if_true, fireTaskReady, hhook]
        | some err =>
          exact absurd ⟨hwrite, by rw [htext]; rfl, by rw [hhook]; rfl, hready, doc, hload,
            by rw [hfound]; rfl⟩ hslip
      · simp only [hready, if_false]
  | updateTask taskId title status notes =>
    obtain ⟨goal, task, task', time, hfound, hstatus, htitle, hid, hdoc, hpost, _, hreply⟩ :=
      editTask_ok hchange
    rw [hdoc, hreply]
    refine ⟨?_, fileDoc_withGoals _,
      kept_putTaskGoal (hk.congr (goalsOf_of_found hload hfound)) hfound hid⟩
    apply hpost
    · intro hnone
      exact hslip ⟨hwrite, hstatus, htitle, doc, (goal, task), hload, hfound, .inl hnone⟩
    · intro hhook hready
      by_contra hprev
      exact hslip ⟨hwrite, hstatus, htitle, doc, (goal, task), hload, hfound,
        .inr ⟨hhook, hready, hprev⟩⟩

/-- One call keeps the entries of the calls before it, and a call that raises leaves the file. -/
theorem step_kept (call : Call) (hfresh : FreshId s (call, env)) (hslip : ¬Slips s (call, env))
    (hk : Kept s.2 (fileDoc s.1.file)) :
    Kept (step s (call, env)).2 (fileDoc (step s (call, env)).1.file) ∧
      UnchangedOnError s (call, env) := by
  have houtcome : Outcome env s.1 _ (apply call env s.1) := apply_outcome call
  obtain ⟨err, s', hrun, hfile⟩ | ⟨doc, c, s', hload, hchange, hwrite, hfile, hrun⟩ := houtcome
  · constructor
    · simp only [step, hrun, after, Expected.note, hfile]
      exact hk
    · intro err' t ht
      rw [hrun] at ht
      cases ht
      exact hfile
  · obtain ⟨hpost, hsaved, hkept⟩ := change_kept call hload hchange hwrite hfresh hslip hk
    rw [hpost] at hrun
    constructor
    · simp only [step, hrun, after, Expected.note, hfile, hsaved]
      exact hkept
    · intro err' t ht
      rw [hrun] at ht
      cases ht

end Step

/-- In a run in which no call slips, every entry whose creating call returned is in the file as the
last call on it returned it, and every call that raises leaves the file as it was. -/
theorem ledger_keeps_entries (s : Store) (calls : List (Call × Env))
    (hcalls : Along step (fun t c => FreshId t c ∧ ¬Slips t c) (s, Expected.none) calls) :
    Kept (run step (s, Expected.none) calls).2
        (fileDoc (run step (s, Expected.none) calls).1.file) ∧
      Along step UnchangedOnError (s, Expected.none) calls := by
  have hstart : Kept Expected.none (fileDoc s.file) := by
    constructor
    · intro id goal h
      cases h
    · intro id task h
      cases h
  exact hcalls.shows (fun t => Kept t.2 (fileDoc t.1.file))
    (fun t c hc hk => step_kept c.1 hc.1 hc.2 hk) _ _ hstart

section Sample

/-- A call at a second, without faults. -/
def sampleEnv (second : String) : Env :=
  { read := .none, writeFails := false, hookError := none,
    now := "2026-01-01T00:00:" ++ second ++ "+00:00", hex := second }

def sampleGoal (title : String) : Call := .createGoal (.str title) .null "open" none

/-- Two goals, a write that fails between them, and an update of the first. -/
def sampleCalls : List (Call × Env) :=
  [(sampleGoal "first", sampleEnv "01"),
    (sampleGoal "lost", { sampleEnv "02" with writeFails := true }),
    (sampleGoal "second", sampleEnv "03"),
    (.updateGoal "g_01" .null (some "review") none (.bool false), sampleEnv "04")]

theorem ledger_keeps_entries_sample :
    Kept (run step (⟨.absent, 0⟩, Expected.none) sampleCalls).2
        (fileDoc (run step (⟨.absent, 0⟩, Expected.none) sampleCalls).1.file) ∧
      Along step UnchangedOnError (⟨.absent, 0⟩, Expected.none) sampleCalls := by
  have hreads {t : Store × Expected} {title second : String} {fails : Bool} :
      ¬Slips t (sampleGoal title, { sampleEnv second with writeFails := fails }) := by
    rintro ⟨-, -, -, hread, -⟩
    cases hread
  refine ledger_keeps_entries ⟨.absent, 0⟩ sampleCalls
    ⟨⟨?_, hreads⟩, ⟨?_, hreads⟩, ⟨?_, hreads⟩, ⟨trivial, id⟩, trivial⟩
  all_goals exact Option.isNone_iff_eq_none.mp (by decide +kernel)

/-- A goal, and a second one whose read of the file fails. -/
def misreadCalls : List (Call × Env) :=
  [(sampleGoal "first", sampleEnv "01"),
    (sampleGoal "second", { sampleEnv "02" with read := .text })]

/-- The second goal is saved alone: the first is gone. -/
theorem misread_loses_goal :
    ¬∀ (s : Store) (calls : List (Call × Env)), Along step FreshId (s, Expected.none) calls →
      Kept (run step (s, Expected.none) calls).2
          (fileDoc (run step (s, Expected.none) calls).1.file) ∧
        Along step UnchangedOnError (s, Expected.none) calls := by
  intro h
  have hfresh : Along step FreshId (⟨.absent, 0⟩, Expected.none) misreadCalls := by
    refine ⟨?_, ?_, trivial⟩
    all_goals exact Option.isNone_iff_eq_none.mp (by decide +kernel)
  have hexpected :
      ((run step (⟨.absent, 0⟩, Expected.none) misreadCalls).2.goals "g_01").isSome := by
    decide +kernel
  obtain ⟨goal, hgoal⟩ := Option.isSome_iff_exists.mp hexpected
  have hkept := (h ⟨.absent, 0⟩ misreadCalls hfresh).1.goals "g_01" goal hgoal
  have hgone : findGoal
      (fileDoc (run step (⟨.absent, 0⟩, Expected.none) misreadCalls).1.file) "g_01" = none :=
    Option.isNone_iff_eq_none.mp (by decide +kernel)
  rw [hgone] at hkept
  cases hkept

end Sample

end Elyra.Goals
