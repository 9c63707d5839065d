import Elyra.Ladder.ClosedHours
import Elyra.Ladder.RefreshSpec

namespace Elyra.Ladder

open Json Memory JsonlMemoryStore

section Primitives

variable {α β : Type} (e : LadderEnv)

theorem run_ofExcept_bind (r : Except PyErr α) (f : α → LadderPy β) :
    ((ofExcept r : LadderPy α) >>= f) e = match r with
      | .ok a => f a e
      | .error err => .error err e := by
  cases r <;> rfl

theorem run_readStore_bind (g : JsonlMemoryStore → Except PyErr α) (f : α → LadderPy β) :
    (readStore g >>= f) e = match g e.store with
      | .ok a => f a e
      | .error err => .error err e := by
  rw [run_bind, readStore]
  cases g e.store <;> rfl

theorem run_ask_bind (answers : Nat → α) (f : α → LadderPy β) :
    (ask answers >>= f) e = f (answers e.asked) { e with asked := e.asked + 1 } := rfl

end Primitives

section Model

variable (out : Outside)

/-- The model is called a second time: pass A answered, and its draft is to be reduced. -/
def secondPass (scale : PeriodScale) (maxPasses : Int) (asked : Nat) : Bool :=
  match out.answers (asked + 1) with
  | .text draft => wantFinal scale draft && decide (2 ≤ maxPasses)
  | .llmError _ | .otherError _ => false

def passCount (scale : PeriodScale) (maxPasses : Int) (asked : Nat) : Nat :=
  if secondPass out scale maxPasses asked then 2 else 1

theorem passCount_pos (scale : PeriodScale) (maxPasses : Int) (asked : Nat) :
    0 < passCount out scale maxPasses asked := by
  unfold passCount
  split_ifs <;> decide

/-- The debit that the meta of a body will ask for. -/
def Generated.debit : Generated → Nat
  | .body _ passes _ => passes
  | .llmError _ passes _ => max 1 passes
  | .unexpected _ => 1

/-- The environment after `k` calls of the model. -/
def afterCalls (k : Nat) (e : LadderEnv) : LadderEnv :=
  { e with asked := e.asked + 1 + k, llmCalls := e.llmCalls + k }

theorem checkedBody_debit (text : String) (passes : Nat) (draftChars : Int) (h : 0 < passes) :
    (checkedBody text passes draftChars).debit = passes := by
  unfold checkedBody
  split_ifs
  · exact Nat.max_eq_right h
  · rfl

theorem finalPass_run (draftChars : Int) (e : LadderEnv)
    (h : ∀ msg, out.answers e.asked ≠ .otherError msg) :
    ∃ g, finalPass out draftChars e =
        .ok g { e with asked := e.asked + 1, llmCalls := e.llmCalls + 1 } ∧ g.debit = 2 := by
  rw [finalPass, run_bind, complete]
  dsimp only
  cases hanswer : out.answers e.asked with
  | text final => exact ⟨_, rfl, checkedBody_debit _ _ _ (by decide)⟩
  | llmError msg => exact ⟨_, rfl, rfl⟩
  | otherError msg => exact absurd hanswer (h msg)

/-- The calls of the model are the ones its meta will ask to debit. -/
theorem llmGenerateBody_run (scale : PeriodScale) (maxPasses : Int) (e : LadderEnv)
    (hpack : out.packRaises e.asked = none)
    (hsecond : secondPass out scale maxPasses e.asked = true →
      ∀ msg, out.answers (e.asked + 2) ≠ .otherError msg) :
    ∃ g, llmGenerateBody out scale maxPasses e =
        .ok g (afterCalls (passCount out scale maxPasses e.asked) e) ∧
      g.debit = passCount out scale maxPasses e.asked := by
  rw [llmGenerateBody, run_ask_bind, hpack]
  dsimp only
  rw [run_bind, complete]
  dsimp only
  unfold passCount
  unfold secondPass at hsecond ⊢
  cases hanswer : out.answers (e.asked + 1) with
  | text draft =>
    rw [hanswer] at hsecond
    dsimp only at hsecond ⊢
    by_cases hfinal : (wantFinal scale draft && decide (2 ≤ maxPasses)) = true
    · have hgo : ¬((!wantFinal scale draft) = true ∨ maxPasses < 2) := by
        simp only [Bool.and_eq_true, decide_eq_true_eq] at hfinal
        rintro (hno | hlt)
        · rw [hfinal.1] at hno
          cases hno
        · omega
      rw [if_pos hfinal, if_neg hgo]
      exact finalPass_run out draft.length
        { e with asked := e.asked + 2, llmCalls := e.llmCalls + 1 } (hsecond hfinal)
    · have hstop : (!wantFinal scale draft) = true ∨ maxPasses < 2 := by
        by_cases hwant : wantFinal scale draft = true
        · simp only [hwant, Bool.true_and, decide_eq_true_eq] at hfinal
          exact .inr (by omega)
        · exact .inl (by simpa using hwant)
      rw [if_neg hfinal, if_pos hstop]
      exact ⟨_, rfl, checkedBody_debit _ _ _ Nat.one_pos⟩
  | llmError msg => exact ⟨_, rfl, rfl⟩
  | otherError msg => exact ⟨_, rfl, rfl⟩

end Model

section Sources

variable [PyCoerce] [LadderDigest] {sources : List Atom}

/-- The start of every source can be read. -/
def Timed (sources : List Atom) : Prop := ∀ a ∈ sources, ∃ iso, toIsoZ a.tStart = .ok iso

omit [PyCoerce] [LadderDigest] in
theorem Timed.ranked (h : Timed sources) :
    ∃ l, Ladder.ranked sources = .ok l ∧ ∀ a ∈ l, a ∈ sources := by
  have hkeys : ∀ a ∈ sources, ∃ k, highlightRank a = .ok k := by
    intro a ha
    obtain ⟨iso, hiso⟩ := h a ha
    refine ⟨toLex (highlightTier a, toLex (iso, a.atomId)), ?_⟩
    rw [highlightRank, hiso]
    rfl
  obtain ⟨sorted, hsorted⟩ := sortKeyed_total sources hkeys
  have hperm := (sortKeyed_spec sources sorted hsorted).1
  refine ⟨sorted.map Prod.snd, ?_, fun a ha => hperm.mem_iff.mp ha⟩
  rw [Ladder.ranked, hsorted]
  rfl

omit [PyCoerce] [LadderDigest] in
theorem Timed.selectHighlights (h : Timed sources) (limit : Nat) :
    ∃ l, Ladder.selectHighlights sources limit = .ok l ∧ ∀ a ∈ l, a ∈ sources := by
  unfold Ladder.selectHighlights
  split_ifs
  · exact ⟨[], rfl, fun _ ha => nomatch ha⟩
  · obtain ⟨l, hl, hmem⟩ := h.ranked
    refine ⟨l.take limit, ?_, fun a ha => hmem a (List.mem_of_mem_take ha)⟩
    rw [hl]
    rfl

omit [PyCoerce] [LadderDigest] in
theorem mapM_highlightLine (l : List Atom) (h : Timed l) :
    ∃ lines, l.mapM highlightLine = .ok lines := by
  induction l with
  | nil => exact ⟨[], rfl⟩
  | cons a l ih =>
    obtain ⟨iso, hiso⟩ := h a List.mem_cons_self
    obtain ⟨lines, hlines⟩ := ih (fun b hb => h b (List.mem_cons_of_mem a hb))
    refine ⟨("- " ++ iso ++ " " ++ a.kind ++ ": " ++ truncated a.contentText 160) :: lines, ?_⟩
    rw [List.mapM_cons, highlightLine, hiso, hlines]
    rfl

omit [PyCoerce] [LadderDigest] in
/-- The template renders sources whose starts can be read. -/
theorem Timed.templateBody (h : Timed sources) (scale : PeriodScale) (wStart wEnd : Instant) :
    ∃ body, Ladder.templateBody scale wStart wEnd sources = .ok body := by
  obtain ⟨shown, hshown, hmem⟩ := h.selectHighlights (maxHighlights scale)
  obtain ⟨lines, hlines⟩ := mapM_highlightLine shown (fun a ha => h a (hmem a ha))
  have hkeys : ∀ a ∈ sources, ∃ k, startKey a = .ok k := by
    intro a ha
    obtain ⟨iso, hiso⟩ := h a ha
    refine ⟨toLex (iso, a.atomId), ?_⟩
    rw [startKey, hiso]
    rfl
  obtain ⟨sorted, hsorted⟩ := sortKeyed_total sources hkeys
  have hthread : whyNowOpenThread sources =
      .ok (sorted.filterMap fun p => whyNow p.2).getLast? := by
    rw [whyNowOpenThread, hsorted]
    rfl
  rw [Ladder.templateBody, hshown]
  show ∃ body, renderTemplateSummary scale wStart wEnd sources shown = .ok body
  rw [renderTemplateSummary, hlines]
  show ∃ body, (whyNowOpenThread sources >>= _) = .ok body
  rw [hthread]
  exact ⟨_, rfl⟩

omit [PyCoerce] [LadderDigest] in
theorem Timed.buildHonestyMeta (h : Timed sources) (settings : LadderSettings)
    (scale : PeriodScale) (fromChildren : Bool) (g : Generation) (v : Supersedes) (cch : String)
    (now : Instant) :
    ∃ metadata, Ladder.buildHonestyMeta settings scale sources fromChildren g v cch now =
        .ok metadata ∧
      metadata.get? "source" = some (.str g.source) ∧
      metadata.get? "llm_passes" = some (.int g.llmPasses) := by
  obtain ⟨ids, hids⟩ : ∃ ids, Ladder.ranked (if fromChildren then [] else sources) = .ok ids := by
    cases fromChildren with
    | true => exact ⟨[], rfl⟩
    | false =>
      obtain ⟨l, hl, -⟩ := h.ranked
      exact ⟨l, hl⟩
  obtain ⟨pointers, hpointers, -⟩ := h.selectHighlights 12
  refine ⟨.ofList (honestyFields settings scale sources ids pointers fromChildren g v cch now),
    ?_, ?_, ?_⟩
  · rw [Ladder.buildHonestyMeta, hids]
    show (Ladder.selectHighlights sources 12 >>= _) = _
    rw [hpointers]
    rfl
  · rw [get?_honestyFields]
    rfl
  · rw [get?_honestyFields]
    rfl

end Sources

section Spent

variable [PyCoerce]

/-- The meta of a summary that the model was asked for. -/
def Asks (p : Atom) (n : Nat) : Prop := spentCalls p = .ok (n : Int)

theorem metaInt_int {a : Atom} {key : String} {n : Nat}
    (h : a.metadata.get? key = some (.int n)) : metaInt a key = .ok (n : Int) := by
  rw [metaInt, h]
  by_cases hn : n = 0
  · rw [hn]
    rfl
  · have htruthy : truthy (.int n) = true := by simp [truthy, hn]
    show (if truthy (.int n) then _ else _) = _
    rw [if_pos htruthy]
    rfl

theorem asks_llm {a : Atom} {n : Nat} (hsource : a.metadata.get? "source" = some (.str "llm"))
    (hpasses : a.metadata.get? "llm_passes" = some (.int n)) (hn : 0 < n) : Asks a n := by
  have hpos : 0 < (n : Int) := by omega
  have hmax : max 1 (n : Int) = n := by omega
  have hbind (f : Int → Except PyErr Int) : (Except.ok (n : Int) >>= f) = f n := rfl
  rw [Asks, spentCalls, metaInt_int hpasses, hsource, hbind, if_pos rfl, if_pos hpos, hmax]
  rfl

theorem asks_fallback {a : Atom} {n : Nat}
    (hsource : a.metadata.get? "source" = some (.str "llm_fallback_template"))
    (hpasses : a.metadata.get? "llm_passes" = some (.int n)) : Asks a (max 1 n) := by
  have hbind (f : Int → Except PyErr Int) : (Except.ok (n : Int) >>= f) = f n := rfl
  have hneq : some (Json.str "llm_fallback_template") ≠ some (.str "llm") := by simp
  have hspent : (if 0 < (n : Int) then max 1 (n : Int) else 1) = ((max 1 n : Nat) : Int) := by
    split_ifs <;> omega
  rw [Asks, spentCalls, metaInt_int hpasses, hsource, hbind, if_neg hneq, if_pos rfl, hspent]
  rfl

end Spent

section Build

variable [PyCoerce] [LadderDigest] (out : Outside) {settings : LadderSettings}

omit [LadderDigest] in
/-- With the model at hand and its sources readable, a body is generated and its meta debits the
calls. -/
theorem generation_run (hmode : settings.modeLlm = true) (scale : PeriodScale)
    (wStart wEnd : Instant) {sources : List Atom} (htimed : Timed sources) (maxPasses : Int)
    (e : LadderEnv) (hpack : out.packRaises e.asked = none)
    (hsecond : secondPass out scale (max 1 maxPasses) e.asked = true →
      ∀ msg, out.answers (e.asked + 2) ≠ .otherError msg) :
    ∃ g, generation out settings scale wStart wEnd sources true maxPasses e =
        .ok g (afterCalls (passCount out scale (max 1 maxPasses) e.asked) e) ∧
      ∀ a : Atom, a.metadata.get? "source" = some (.str g.source) →
        a.metadata.get? "llm_passes" = some (.int g.llmPasses) →
          Asks a (passCount out scale (max 1 maxPasses) e.asked) := by
  obtain ⟨body, hbody⟩ := htimed.templateBody scale wStart wEnd
  obtain ⟨g, hrun, hdebit⟩ := llmGenerateBody_run out scale (max 1 maxPasses) e hpack hsecond
  have hcond : (settings.modeLlm && true) = true := by rw [hmode]; rfl
  have hpos := passCount_pos out scale (max 1 maxPasses) e.asked
  rw [generation, if_pos hcond, run_bind, hrun]
  cases g with
  | body text passes draftChars =>
    refine ⟨_, rfl, ?_⟩
    intro a hsource hpasses
    have hcount : passes = passCount out scale (max 1 maxPasses) e.asked := hdebit
    rw [← hcount] at hpos ⊢
    exact asks_llm hsource hpasses hpos
  | llmError msg passes draftChars =>
    dsimp only
    rw [run_ofExcept_bind, hbody]
    refine ⟨_, rfl, ?_⟩
    intro a hsource hpasses
    have hcount : max 1 passes = passCount out scale (max 1 maxPasses) e.asked := hdebit
    rw [← hcount]
    exact asks_fallback hsource hpasses
  | unexpected msg =>
    dsimp only
    rw [run_ofExcept_bind, hbody]
    refine ⟨_, rfl, ?_⟩
    intro a hsource hpasses
    have hcount : 1 = passCount out scale (max 1 maxPasses) e.asked := hdebit
    rw [← hcount]
    exact asks_fallback hsource hpasses

/-- A summary built by the model. -/
theorem buildSummaryAtom_run (hmode : settings.modeLlm = true) (scale : PeriodScale)
    (wStart wEnd : Instant) (preferChildren : Bool) {sources : List Atom} {fromChildren : Bool}
    (version : Int) (supersedes : Option String) (cch : String) (maxPasses : Int) (e : LadderEnv)
    (hsources : collectWindowSources e.store scale wStart wEnd preferChildren =
      .ok (sources, fromChildren))
    (htimed : Timed sources) (hpack : out.packRaises e.asked = none)
    (hsecond : secondPass out scale (max 1 maxPasses) e.asked = true →
      ∀ msg, out.answers (e.asked + 2) ≠ .otherError msg) :
    ∃ a, buildSummaryAtom out settings scale wStart wEnd preferChildren true version supersedes
        cch maxPasses e = .ok a { e with
          asked := e.asked + 2 + passCount out scale (max 1 maxPasses) e.asked
          llmCalls := e.llmCalls + passCount out scale (max 1 maxPasses) e.asked } ∧
      Minted scale wStart wEnd (max 1 version).toNat supersedes cch a ∧
      ∀ p : Atom, (∀ key, key ≠ "truncated" → p.metadata.get? key = a.metadata.get? key) →
        Asks p (passCount out scale (max 1 maxPasses) e.asked) := by
  obtain ⟨g, hrun, hasks⟩ :=
    generation_run out hmode scale wStart wEnd htimed maxPasses e hpack hsecond
  obtain ⟨metadata, hmeta, hsource, hpasses⟩ := htimed.buildHonestyMeta settings scale
    fromChildren g ⟨(max 1 version).toNat, supersedes⟩ cch
    (out.today (e.asked + 1 + passCount out scale (max 1 maxPasses) e.asked))
  refine ⟨summaryAtom scale wStart wEnd (max 1 version).toNat g.body metadata, ?_, ?_, ?_⟩
  · rw [buildSummaryAtom, run_readStore_bind, hsources]
    dsimp only
    rw [run_bind, hrun]
    dsimp only
    rw [run_ask_bind, run_ofExcept_bind]
    have hasked : (afterCalls (passCount out scale (max 1 maxPasses) e.asked) e).asked =
        e.asked + 1 + passCount out scale (max 1 maxPasses) e.asked := rfl
    rw [hasked, hmeta]
    show EStateM.Result.ok _ _ = EStateM.Result.ok _ _
    congr 1
    simp only [afterCalls, LadderEnv.mk.injEq, true_and]
    omega
  · exact ⟨g.body, metadata, rfl, buildHonestyMeta_fields _ _ _ _ _ _ _ _ _ hmeta⟩
  · intro p hp
    apply hasks p
    · rw [hp "source" (by decide)]
      exact hsource
    · rw [hp "llm_passes" (by decide)]
      exact hpasses

/-- The version of what the ladder index names for the window can be read, unless it is the atom
itself. -/
def ReadableTip (scale : PeriodScale) (wStart : Instant) (atomId : String)
    (s : JsonlMemoryStore) : Prop :=
  ∀ id cur, s.ladder.get? (windowKeyOf scale wStart) = some id → id ≠ atomId →
    s.byId.get? id = some cur → ∃ v, cur.version = .ok v

/-- A put of a built summary goes through. -/
theorem storePut_run {scale : PeriodScale} {wStart wEnd : Instant} {version : Nat}
    {supersedes : Option String} {cch : String} {a : Atom}
    (ha : Minted scale wStart wEnd version supersedes cch a) (e : LadderEnv)
    (hraises : out.putRaises e.asked = false)
    (htip : ReadableTip scale wStart a.atomId e.store) :
    ∃ p s, storePut out a e = .ok p { e with store := s, asked := e.asked + 1 } ∧ Stores a p ∧
      p.version = .ok (version : Int) := by
  obtain ⟨body, metadata, rfl, hversion, -, -⟩ := ha
  obtain ⟨p, hp, hstores⟩ :=
    prepareForPut_summaryAtom scale wStart wEnd version body metadata e.store.settings
  have hpversion : p.version = .ok (version : Int) :=
    version_of_meta ((hstores.metadata "version" (by decide)).trans hversion)
  have hkey := tipKey_summaryAtom scale wStart wEnd version body metadata p hstores
  obtain ⟨d, hput⟩ := putAtom_run e.store (summaryAtom scale wStart wEnd version body metadata)
  have hindex : ∃ t, indexPut p { e.store with dir := d } = .ok () t := by
    rw [indexPut_eq, raiseTip, hkey]
    dsimp only
    cases hcur : (replaced p { e.store with dir := d }).ladder.get? (windowKeyOf scale wStart) with
    | none => exact ⟨_, rfl⟩
    | some id =>
      dsimp only
      by_cases hid : id = p.atomId
      · rw [if_pos hid]
        exact ⟨_, rfl⟩
      · rw [if_neg hid]
        cases hrow : (replaced p { e.store with dir := d }).byId.get? id with
        | none => exact ⟨_, rfl⟩
        | some cur =>
          have hlive : e.store.ladder.get? (windowKeyOf scale wStart) = some id := by
            have hdropped : (dropTip (e.store.byId.get? p.atomId) e.store.ladder).get?
                (windowKeyOf scale wStart) = some id := hcur
            rw [get?_dropTip] at hdropped
            split_ifs at hdropped
            exact hdropped
          have hold : e.store.byId.get? id = some cur := by
            have hset : (e.store.byId.set p.atomId p).get? id = some cur := hrow
            rwa [Dict.get?_set_ne _ _ (Ne.symm hid)] at hset
          have hne : id ≠ (summaryAtom scale wStart wEnd version body metadata).atomId := by
            rw [← hstores.atomId]
            exact hid
          obtain ⟨v, hv⟩ := htip id cur hlive hne hold
          have hnewer : newer p cur = .ok (decide
              ((toLex (v, cur.atomId) : Int ×ₗ String) < toLex ((version : Int), p.atomId))) := by
            rw [newer, Atom.summaryVersionKey, Atom.summaryVersionKey, hpversion, hv]
            rfl
          dsimp only
          rw [hnewer]
          split
          · next heq => cases heq
          · exact ⟨_, rfl⟩
          · exact ⟨_, rfl⟩
  obtain ⟨t, hindex⟩ := hindex
  refine ⟨p, t, ?_, hstores, hpversion⟩
  rw [storePut, if_neg (by rw [hraises]; decide), hput, hp]
  dsimp only
  rw [run_bind, hindex]
  rfl

end Build

section Unasked

variable [PyCoerce] [LadderDigest] (out : Outside) {settings : LadderSettings}

/-- The ladder state and the calls of the model so far. -/
def BooksAre (st : LadderState) (n : Nat) (e : LadderEnv) : Prop := e.state = st ∧ e.llmCalls = n

variable {st : LadderState} {n : Nat} {α : Type}

omit [PyCoerce] [LadderDigest] in
theorem books_ask (answers : Nat → α) : Keeps (BooksAre st n) (ask answers) (fun _ => True) := by
  intro e he
  exact ⟨he, fun _ _ _ => trivial⟩

omit [PyCoerce] [LadderDigest] in
theorem books_readStore (f : JsonlMemoryStore → Except PyErr α) :
    Keeps (BooksAre st n) (readStore f) (fun _ => True) := by
  intro e he
  rw [readStore]
  cases f e.store with
  | error err => exact ⟨he, fun _ _ _ => trivial⟩
  | ok a => exact ⟨he, fun _ _ _ => trivial⟩

omit [PyCoerce] [LadderDigest] in
theorem books_ofExcept (r : Except PyErr α) :
    Keeps (BooksAre st n) (ofExcept r) (fun _ => True) := by
  intro e he
  cases r with
  | error err => exact ⟨he, fun _ _ _ => trivial⟩
  | ok a => exact ⟨he, fun _ _ _ => trivial⟩

omit [LadderDigest] in
theorem books_storePut (a : Atom) : Keeps (BooksAre st n) (storePut out a) (fun _ => True) := by
  intro e he
  refine ⟨?_, fun _ _ _ => trivial⟩
  rw [storePut]
  split_ifs
  · cases prepare a e.store <;> exact he
  · cases putAtom a e.store <;> exact he

omit [PyCoerce] [LadderDigest] in
theorem books_generation (scale : PeriodScale) (wStart wEnd : Instant) (sources : List Atom)
    (maxPasses : Int) :
    Keeps (BooksAre st n) (generation out settings scale wStart wEnd sources false maxPasses)
      (fun _ => True) := by
  have hcond : ¬(settings.modeLlm && false) = true := by simp
  rw [generation, if_neg hcond]
  exact keeps_bind (books_ofExcept _) (fun _ _ => keeps_pure _ trivial)

omit [PyCoerce] in
theorem books_buildSummaryAtom (scale : PeriodScale) (wStart wEnd : Instant)
    (preferChildren : Bool) (version : Int) (supersedes : Option String) (cch : String)
    (maxPasses : Int) :
    Keeps (BooksAre st n)
      (buildSummaryAtom out settings scale wStart wEnd preferChildren false version supersedes cch
        maxPasses) (fun _ => True) := by
  apply keeps_bind (books_readStore _)
  intro ⟨sources, fromChildren⟩ _
  apply keeps_bind (books_generation out scale wStart wEnd sources maxPasses)
  intro g _
  apply keeps_bind (books_ask out.today)
  intro now _
  exact keeps_bind (books_ofExcept _) (fun _ _ => keeps_pure _ trivial)

omit [LadderDigest] in
theorem books_put (a : Atom) : Keeps (BooksAre st n)
    (storePut out a >>= fun p => pure (some p) : LadderPy (Option Atom)) (fun _ => True) :=
  keeps_bind (books_storePut out a) (fun _ _ => keeps_pure _ trivial)

omit [LadderDigest] in
theorem books_replaceTip (force : Bool) (cch : String) (a : Atom) :
    Keeps (BooksAre st n) (replaceTip out force cch a) (fun _ => True) := by
  apply keeps_bind (books_readStore _)
  intro existing _
  cases existing with
  | none => exact books_put out a
  | some old =>
    dsimp only
    split_ifs
    · exact keeps_pure _ trivial
    · exact books_put out a

theorem books_writeSummary (args : RefreshArgs) (hllm : args.useLlm = false)
    (scale : PeriodScale) (wStart wEnd : Instant) (tip : Option Atom) (cch : String) :
    Keeps (BooksAre st n) (writeSummary out settings args scale wStart wEnd tip cch)
      (fun _ => True) := by
  rw [writeSummary, hllm]
  split_ifs
  · have hversioned (version : Int) : Keeps (BooksAre st n) (do
        let a ← buildSummaryAtom out settings scale wStart wEnd args.preferChildren false version
          (tip.map Atom.atomId) cch args.maxPasses
        return some (← storePut out a) : LadderPy (Option Atom)) (fun _ => True) :=
      keeps_bind (books_buildSummaryAtom out scale wStart wEnd _ _ _ _ _)
        (fun a _ => books_put out a)
    cases tip with
    | none => exact hversioned 1
    | some a =>
      exact keeps_bind (books_ofExcept (nextVersion a)) (fun version _ => hversioned version)
  · exact keeps_bind (books_buildSummaryAtom out scale wStart wEnd _ _ _ _ _)
      (fun a _ => books_replaceTip out args.force cch a)

/-- Without the model a refresh leaves the books as they are. -/
theorem books_refreshWindow (args : RefreshArgs) (hllm : args.useLlm = false)
    (scale : PeriodScale) (t : Instant) :
    Keeps (BooksAre st n) (refreshWindow out settings args scale t) (fun _ => True) := by
  rw [refreshWindow]
  split_ifs
  · exact keeps_pure _ trivial
  · apply keeps_bind (books_ofExcept _)
    intro ⟨wStart, wEnd⟩ _
    apply keeps_bind (books_readStore _)
    intro ⟨sources, _⟩ _
    dsimp only
    split_ifs
    · exact keeps_pure _ trivial
    · apply keeps_bind (books_readStore _)
      intro tip _
      split_ifs
      · exact keeps_pure _ trivial
      · exact books_writeSummary out args hllm scale wStart wEnd tip _

end Unasked

section Refresh

variable [PyCoerce] [LadderDigest] (out : Outside) (settings : LadderSettings)

/-- A tip that is returned unchanged debits nothing: coarser ones are not booked, and the meta of
an hour's asks for nothing. -/
def TipPays (scale : PeriodScale) (a : Atom) : Prop :=
  usesVersionedIds scale = true ∨ ∀ n, spentCalls a = .ok n → n ≤ 0

/-- The write of a window: the pack is built, the second pass raises nothing unexpected, the
sources can be read, the put goes through, and an hour's own atom was of other sources. -/
structure WritePays (args : RefreshArgs) (scale : PeriodScale) (wStart : Instant)
    (sources : List Atom) (tip : Option Atom) (e : LadderEnv) : Prop where
  pack : out.packRaises e.asked = none
  second : secondPass out scale (max 1 args.maxPasses) e.asked = true →
    ∀ msg, out.answers (e.asked + 2) ≠ .otherError msg
  timed : Timed sources
  put : out.putRaises (e.asked + 2 + passCount out scale (max 1 args.maxPasses) e.asked) = false
  tip : ∀ version, versionAfter scale tip = .ok version →
    ReadableTip scale wStart (summaryId scale wStart (max 1 version).toNat) e.store
  own : usesVersionedIds scale = false → ∀ old,
    e.store.getAtom (stableSummaryId scale wStart) = some old →
      tipHash old ≠ some (.str (childContentHash sources))

/-- What a refresh with the model meets: nothing to do, a tip that is current and pays, or a write
that pays. -/
def RefreshPays (args : RefreshArgs) (scale : PeriodScale) (t : Instant) (e : LadderEnv) : Prop :=
  args.useLlm = true → scaleWritable settings scale = true →
    ∀ wStart wEnd sources tip, Reading args scale t e.store wStart wEnd sources tip →
      ¬(args.skipEmpty = true ∧ sources = []) →
        (∀ a, tip = some a → args.force = false → sameHash a (childContentHash sources) = true →
          TipPays scale a) ∧
        ((args.force = true ∨ ∀ a, tip = some a →
          sameHash a (childContentHash sources) = false) →
            WritePays out args scale wStart sources tip e)

/-- What was stored for the window before its refresh. -/
def FoundBefore (scale : PeriodScale) (wStart wEnd : Instant) (s : JsonlMemoryStore)
    (before : Option Atom) : Prop :=
  if usesVersionedIds scale then resolveTip s scale wStart wEnd = .ok before
  else s.getAtom (stableSummaryId scale wStart) = before

def SameBooks (e e' : LadderEnv) : Prop := BooksAre e.state e.llmCalls e'

/-- A write whose calls are all in the meta of what it returns. -/
structure Written (scale : PeriodScale) (t : Instant) (e : LadderEnv) (p : Atom) (n : Nat)
    (e' : LadderEnv) : Prop where
  state : e'.state = e.state
  calls : e'.llmCalls = e.llmCalls + n
  made : 0 < n
  asks : Asks p n
  wrote : ∀ wStart wEnd before, windowBounds scale t = .ok (wStart, wEnd) →
    FoundBefore scale wStart wEnd e.store before → refreshWrote before p = .ok true

/-- How a refresh that pays ends, as far as the books go. -/
inductive Booked (args : RefreshArgs) (scale : PeriodScale) (t : Instant) (e : LadderEnv) :
    EStateM.Result PyErr LadderEnv (Option Atom) → Prop
  | raised (err : PyErr) (e' : LadderEnv) (h : SameBooks e e') : Booked args scale t e (.error err e')
  | nothing (e' : LadderEnv) (h : SameBooks e e') : Booked args scale t e (.ok none e')
  | unasked (a : Atom) (e' : LadderEnv) (h : SameBooks e e') (hllm : args.useLlm = false) :
      Booked args scale t e (.ok (some a) e')
  | current (a : Atom) (e' : LadderEnv) (h : SameBooks e e') (wStart wEnd : Instant)
      (hbounds : windowBounds scale t = .ok (wStart, wEnd))
      (htip : resolveTip e.store scale wStart wEnd = .ok (some a)) (hpays : TipPays scale a) :
      Booked args scale t e (.ok (some a) e')
  | written (p : Atom) (n : Nat) (e' : LadderEnv) (hllm : args.useLlm = true)
      (h : Written scale t e p n e') : Booked args scale t e (.ok (some p) e')

section Write

variable {out} {settings} {args : RefreshArgs} {scale : PeriodScale} {t : Instant} {e : LadderEnv}
  {wStart wEnd : Instant} {sources : List Atom} {tip : Option Atom}

/-- A new version is always a write: it is above the tip's. -/
theorem wrote_version {p : Atom} {version : Int} (hscale : usesVersionedIds scale = true)
    (htip : resolveTip e.store scale wStart wEnd = .ok tip)
    (hversion : versionAfter scale tip = .ok version)
    (hp : p.version = .ok ((max 1 version).toNat : Int)) {before : Option Atom}
    (hfound : FoundBefore scale wStart wEnd e.store before) : refreshWrote before p = .ok true := by
  rw [FoundBefore, if_pos hscale, htip] at hfound
  obtain rfl := Except.ok.inj hfound
  cases tip with
  | none => rfl
  | some old =>
    rw [versionAfter, if_pos hscale] at hversion
    obtain ⟨v, hv, hlt⟩ := version_lt_next hversion
    have hne : v ≠ ((max 1 version).toNat : Int) := by omega
    rw [refreshWrote]
    split_ifs
    · rfl
    · rw [hv, hp]
      show Except.ok (decide (v ≠ _)) = _
      rw [decide_eq_true hne]

/-- An hour's atom of other sources is replaced by a write. -/
theorem wrote_own {p : Atom} {cch : String} (hscale : usesVersionedIds scale = false)
    (hp : tipHash p = some (.str cch))
    (hown : ∀ old, e.store.getAtom (stableSummaryId scale wStart) = some old →
      tipHash old ≠ some (.str cch)) {before : Option Atom}
    (hfound : FoundBefore scale wStart wEnd e.store before) : refreshWrote before p = .ok true := by
  have hnot : ¬usesVersionedIds scale = true := by rw [hscale]; decide
  rw [FoundBefore, if_neg hnot] at hfound
  cases before with
  | none => rfl
  | some old =>
    have hne : tipHash old ≠ tipHash p := by
      rw [hp]
      exact hown old hfound
    rw [refreshWrote, if_pos (.inr (.inl hne))]

/-- The build and the put of a write that pays. -/
theorem put_booked (hmode : settings.modeLlm = true) (hllm : args.useLlm = true)
    (hread : Reading args scale t e.store wStart wEnd sources tip)
    (hpays : WritePays out args scale wStart sources tip e) {version : Int}
    (hversion : versionAfter scale tip = .ok version) (supersedes : Option String) :
    ∃ a e', buildSummaryAtom out settings scale wStart wEnd args.preferChildren args.useLlm version
        supersedes (childContentHash sources) args.maxPasses e = .ok a e' ∧
      e'.store = e.store ∧ e'.state = e.state ∧
      a.atomId = summaryId scale wStart (max 1 version).toNat ∧
      ∃ p e'', storePut out a e' = .ok p e'' ∧ Written scale t e p
        (passCount out scale (max 1 args.maxPasses) e.asked) e'' := by
  obtain ⟨fromChildren, hsources⟩ := hread.sources
  obtain ⟨a, hbuild, hminted, hasks⟩ := buildSummaryAtom_run out hmode scale wStart wEnd
    args.preferChildren version supersedes (childContentHash sources) args.maxPasses e hsources
    hpays.timed hpays.pack hpays.second
  have htip : ReadableTip scale wStart a.atomId e.store := by
    rw [hminted.atomId]
    exact hpays.tip version hversion
  rw [hllm]
  refine ⟨a, _, hbuild, rfl, rfl, hminted.atomId, ?_⟩
  obtain ⟨p, s, hput, hstores, hp⟩ := storePut_run out hminted { e with
    asked := e.asked + 2 + passCount out scale (max 1 args.maxPasses) e.asked
    llmCalls := e.llmCalls + passCount out scale (max 1 args.maxPasses) e.asked } hpays.put htip
  refine ⟨p, _, hput, rfl, rfl, passCount_pos _ _ _ _, hasks p hstores.metadata, ?_⟩
  intro wStart' wEnd' before hbounds hfound
  obtain ⟨rfl, rfl⟩ := Prod.mk.inj (Except.ok.inj (hread.bounds.symm.trans hbounds))
  cases hscale : usesVersionedIds scale with
  | true => exact wrote_version hscale hread.tip hversion hp hfound
  | false =>
    apply wrote_own hscale _ (hpays.own hscale) hfound
    obtain ⟨body, metadata, rfl, -, -, hhash⟩ := hminted
    exact (hstores.metadata "child_content_hash" (by decide)).trans hhash

theorem writeSummary_booked (hmode : settings.modeLlm = true) (hllm : args.useLlm = true)
    (hread : Reading args scale t e.store wStart wEnd sources tip)
    (hpays : WritePays out args scale wStart sources tip e) :
    Booked args scale t e
      (writeSummary out settings args scale wStart wEnd tip (childContentHash sources) e) := by
  rw [writeSummary]
  cases hscale : usesVersionedIds scale with
  | true =>
    have hversioned (version : Int) (hversion : versionAfter scale tip = .ok version) :
        Booked args scale t e ((do
          let a ← buildSummaryAtom out settings scale wStart wEnd args.preferChildren args.useLlm
            version (tip.map Atom.atomId) (childContentHash sources) args.maxPasses
          return some (← storePut out a) : LadderPy (Option Atom)) e) := by
      obtain ⟨a, e', hbuild, -, -, -, p, e'', hput, hwritten⟩ :=
        put_booked hmode hllm hread hpays hversion (tip.map Atom.atomId)
      rw [run_bind, hbuild]
      dsimp only
      rw [run_bind, hput]
      exact .written p _ e'' hllm hwritten
    rw [if_pos rfl]
    cases tip with
    | none => exact hversioned 1 (if_pos hscale)
    | some old =>
      show Booked args scale t e ((ofExcept (nextVersion old) >>= _ : LadderPy (Option Atom)) e)
      rw [run_ofExcept_bind]
      cases hnext : nextVersion old with
      | error err => exact .raised err e ⟨rfl, rfl⟩
      | ok version => exact hversioned version ((if_pos hscale).trans hnext)
  | false =>
    have hversion : versionAfter scale tip = .ok 1 := if_neg (by rw [hscale]; decide)
    obtain ⟨a, e', hbuild, hstore, -, hid, p, e'', hput, hwritten⟩ :=
      put_booked hmode hllm hread hpays hversion none
    have hputs : Booked args scale t e
        ((storePut out a >>= fun p => pure (some p) : LadderPy (Option Atom)) e') := by
      rw [run_bind, hput]
      exact .written p _ e'' hllm hwritten
    have hstable : a.atomId = stableSummaryId scale wStart := by
      rw [hid, summaryId, if_neg (by rw [hscale]; decide)]
    rw [if_neg (by decide), run_bind, hbuild]
    dsimp only
    rw [replaceTip, run_readStore_bind]
    dsimp only
    rw [hstore]
    cases hold : e.store.getAtom a.atomId with
    | none => exact hputs
    | some old =>
      have hother := hpays.own hscale old (hstable ▸ hold)
      have hcond : ¬(!args.force && decide (old.contentText = a.contentText) &&
          decide (tipHash old = some (.str (childContentHash sources)))) = true := by
        simp [hother]
      dsimp only
      rw [if_neg hcond]
      exact hputs

/-- How a refresh ends that meets its condition. -/
theorem refreshWindow_booked (hmode : args.useLlm = true → settings.modeLlm = true)
    (hpays : RefreshPays out settings args scale t e) :
    Booked args scale t e (refreshWindow out settings args scale t e) := by
  cases hllm : args.useLlm with
  | false =>
    have hkept := (@books_refreshWindow _ _ out settings e.state e.llmCalls args hllm scale t e
      ⟨rfl, rfl⟩).1
    cases hrun : refreshWindow out settings args scale t e with
    | error err e' =>
      rw [hrun] at hkept
      exact .raised err e' hkept
    | ok after e' =>
      rw [hrun] at hkept
      cases after with
      | none => exact .nothing e' hkept
      | some a => exact .unasked a e' hkept hllm
  | true =>
    have hsame : SameBooks e e := ⟨rfl, rfl⟩
    rw [refreshWindow]
    split_ifs with hw
    · exact .nothing e hsame
    · have hwritable : scaleWritable settings scale = true := by simpa using hw
      rw [run_ofExcept_bind]
      cases hbounds : windowBounds scale t with
      | error err => exact .raised err e hsame
      | ok bounds =>
        obtain ⟨wStart, wEnd⟩ := bounds
        dsimp only
        rw [run_readStore_bind]
        cases hsources : collectWindowSources e.store scale wStart wEnd args.preferChildren with
        | error err => exact .raised err e hsame
        | ok collected =>
          obtain ⟨sources, fromChildren⟩ := collected
          dsimp only
          split_ifs with hempty
          · exact .nothing e hsame
          · rw [run_readStore_bind]
            cases htip : resolveTip e.store scale wStart wEnd with
            | error err => exact .raised err e hsame
            | ok tip =>
              have hread : Reading args scale t e.store wStart wEnd sources tip :=
                ⟨hbounds, ⟨fromChildren, hsources⟩, htip⟩
              obtain ⟨hcurrent, hwrite⟩ := hpays hllm hwritable wStart wEnd sources tip hread
                (by simpa using hempty)
              dsimp only
              split_ifs with hreturn
              · simp only [Bool.and_eq_true, Bool.not_eq_true'] at hreturn
                cases tip with
                | none => exact absurd hreturn.2 (by simp)
                | some a =>
                  exact .current a e hsame wStart wEnd hbounds htip
                    (hcurrent a rfl hreturn.1 (by simpa using hreturn.2))
              · apply writeSummary_booked (hmode hllm) hllm hread
                apply hwrite
                by_cases hforce : args.force = true
                · exact .inl hforce
                · right
                  intro a ha
                  simpa [hforce, ha] using hreturn

end Write

end Refresh

end Elyra.Ladder
