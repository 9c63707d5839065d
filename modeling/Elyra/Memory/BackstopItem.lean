import Elyra.Memory.EncodeRace
import Elyra.Memory.PendingBackstop
import Elyra.Memory.PutSpec

namespace Elyra.Memory

open JsonlMemoryStore

section Put

variable {settings : MemorySettings} {a p : Atom}

/-- The row passes the checks of a put. -/
def Storable (settings : MemorySettings) (a : Atom) : Prop := ∃ p, prepareForPut settings a = .ok p

theorem validateAtom_checks {b : Atom} (h : validateAtom b = .ok p) :
    b.embeddingStatus ∈ embeddingStatuses ∧ b.schemaVersion = schemaVersion := by
  unfold validateAtom at h
  split_ifs at h with h1 h2 h3 h4 h5 h6 h7
  exact ⟨h4, not_not.mp h7⟩

/-- Validation reads no body, locator, link or metadata. -/
theorem validateAtom_congr {b c : Atom} (h : validateAtom b = .ok p) (hid : c.atomId = b.atomId)
    (hstart : c.tStart = b.tStart) (hkind : c.kind = b.kind)
    (hstatus : c.embeddingStatus ∈ embeddingStatuses) (hscale : c.scale = b.scale)
    (hws : c.windowStart = b.windowStart) (hwe : c.windowEnd = b.windowEnd)
    (hversion : c.schemaVersion = b.schemaVersion) : validateAtom c = .ok c := by
  unfold validateAtom at h ⊢
  rw [hid, hstart, hkind, hscale, hws, hwe, hversion]
  split_ifs at h with h1 h2 h3 h4 h5 h6 h7
  rw [if_neg h1, if_neg h2, if_neg (not_not_intro h3), if_neg (not_not_intro hstatus), if_neg h5,
    if_neg h6, if_neg h7]

/-- What a put keeps of a row whose status is written. -/
structure Marked (a : Atom) (w : StatusWrite) (p : Atom) : Prop where
  atomId : p.atomId = a.atomId
  kind : p.kind = a.kind
  mediaIds : p.mediaIds = a.mediaIds
  status : p.embeddingStatus = w.status
  tStart : isoOr a.tStart a.tStart = .ok p.tStart
  text : ∃ n, p.contentText.toList = a.contentText.toList.take n
  metadata : ∀ key, key ≠ "truncated" →
    p.metadata.get? key = (markAtomStatus a w).metadata.get? key

theorem fillDefaults_frame (b : Atom) (hstatus : b.embeddingStatus ∈ embeddingStatuses) :
    (fillDefaults b).embeddingStatus = b.embeddingStatus := by
  have hne : b.embeddingStatus ≠ "" := by
    intro hempty
    rw [hempty] at hstatus
    exact absurd hstatus (by decide)
  exact if_neg hne

/-- What the cap on the body leaves of an atom. -/
structure Capped (b c : Atom) : Prop where
  atomId : c.atomId = b.atomId
  tStart : c.tStart = b.tStart
  kind : c.kind = b.kind
  mediaIds : c.mediaIds = b.mediaIds
  status : c.embeddingStatus = b.embeddingStatus
  scale : c.scale = b.scale
  window : c.windowStart = b.windowStart ∧ c.windowEnd = b.windowEnd
  version : c.schemaVersion = b.schemaVersion
  text : ∃ n, c.contentText.toList = b.contentText.toList.take n
  metadata : ∀ key, key ≠ "truncated" → c.metadata.get? key = b.metadata.get? key

theorem capped_capContent (settings : MemorySettings) (b : Atom) :
    Capped b (capContent settings b) := by
  unfold capContent
  split_ifs
  · refine ⟨rfl, rfl, rfl, rfl, rfl, rfl, ⟨rfl, rfl⟩, rfl, ⟨settings.atomMaxChars.toNat, ?_⟩, ?_⟩
    · exact String.toList_ofList
    · exact fun key hkey => Dict.get?_set_ne _ _ (Ne.symm hkey)
  · exact ⟨rfl, rfl, rfl, rfl, rfl, rfl, ⟨rfl, rfl⟩, rfl,
      ⟨b.contentText.toList.length, (List.take_length).symm⟩, fun _ _ => rfl⟩

/-- Normalising the timestamps keeps the rest. -/
theorem normalizeStamps_rest {stamped : Atom} (h : normalizeStamps a = .ok stamped) :
    (stamped.atomId = a.atomId ∧ stamped.kind = a.kind) ∧
      isoOr a.tStart a.tStart = .ok stamped.tStart ∧ stamped.mediaIds = a.mediaIds ∧
      stamped.contentText = a.contentText ∧ stamped.metadata = a.metadata := by
  obtain ⟨tStart, hstart, hrest⟩ := except_bind_ok h
  obtain ⟨tEnd, -, hrest⟩ := except_bind_ok hrest
  obtain ⟨windowStart, -, hrest⟩ := except_bind_ok hrest
  obtain ⟨windowEnd, -, hrest⟩ := except_bind_ok hrest
  obtain ⟨sourceBeatTs, -, hrest⟩ := except_bind_ok hrest
  rw [← Except.ok.inj hrest]
  exact ⟨⟨rfl, rfl⟩, hstart, rfl, rfl, rfl⟩

/-- A row that passes the checks passes them with a known status. -/
theorem prepare_mark (h : Storable settings a) {w : StatusWrite}
    (hstatus : w.status ∈ embeddingStatuses) :
    ∃ p, prepareForPut settings (markAtomStatus a w) = .ok p ∧ Marked a w p := by
  obtain ⟨q, hq⟩ := h
  obtain ⟨stamped, hstamped, hvalid⟩ := except_bind_ok hq
  have hmarked : normalizeStamps (markAtomStatus a w) = .ok (markAtomStatus stamped w) := by
    rw [normalizeStamps_mark, hstamped]
    rfl
  obtain ⟨⟨hid, hkind⟩, hstart, hmedia, htext, hmeta⟩ := normalizeStamps_rest hstamped
  have hplain := capped_capContent settings stamped
  have hcap := capped_capContent settings (markAtomStatus stamped w)
  generalize hc : capContent settings (markAtomStatus stamped w) = c at hcap
  generalize capContent settings stamped = d at hvalid hplain
  have hknown : c.embeddingStatus ∈ embeddingStatuses := by
    rw [hcap.status]
    exact hstatus
  have hfilled := fillDefaults_frame (locate settings c) hknown
  have hversion : (fillDefaults (locate settings c)).schemaVersion =
      (fillDefaults (locate settings d)).schemaVersion := by
    show (if c.schemaVersion = 0 then schemaVersion else c.schemaVersion) =
      if d.schemaVersion = 0 then schemaVersion else d.schemaVersion
    rw [hcap.version, hplain.version]
    rfl
  have hok : validateAtom (fillDefaults (locate settings c)) =
      .ok (fillDefaults (locate settings c)) := validateAtom_congr hvalid (hcap.atomId.trans hplain.atomId.symm)
    (hcap.tStart.trans hplain.tStart.symm) (hcap.kind.trans hplain.kind.symm)
    (by rw [hfilled]; exact hknown) (hcap.scale.trans hplain.scale.symm)
    (hcap.window.1.trans hplain.window.1.symm) (hcap.window.2.trans hplain.window.2.symm) hversion
  refine ⟨fillDefaults (locate settings c), ?_, ?_⟩
  · rw [prepareForPut, hmarked]
    show validateAtom (fillDefaults (locate settings (capContent settings _))) = _
    rw [hc]
    exact hok
  · obtain ⟨n, hn⟩ := hcap.text
    refine ⟨hcap.atomId.trans hid, hcap.kind.trans hkind, hcap.mediaIds.trans hmedia,
      hfilled.trans hcap.status, ?_, ⟨n, ?_⟩, ?_⟩
    · rw [hstart]
      exact congrArg Except.ok hcap.tStart.symm
    · rw [← htext]
      exact hn
    · intro key hkey
      refine (hcap.metadata key hkey).trans ?_
      show (w.updates.foldl _ stamped.metadata).get? key = (w.updates.foldl _ a.metadata).get? key
      rw [hmeta]

/-- What a put stored passes the checks again. -/
theorem storable_prepared [PyCoerce] (h : prepareForPut settings a = .ok p) :
    Storable settings p := by
  obtain ⟨hform, hcap⟩ := inPutForm_of_prepare settings a p h
  obtain ⟨stamped, -, hvalid⟩ := except_bind_ok h
  have hp : validateAtom p = .ok p := by
    have hsame := validateAtom_eq _ p hvalid
    rw [hsame]
    rw [hsame] at hvalid
    exact hvalid
  obtain ⟨hstatus, hversion⟩ := validateAtom_checks hp
  have hfilled := fillDefaults_frame (locate settings p) hstatus
  refine ⟨fillDefaults (locate settings p), ?_⟩
  rw [prepareForPut, hform]
  show validateAtom (fillDefaults (locate settings (capContent settings p))) = _
  rw [hcap]
  refine validateAtom_congr hp rfl rfl rfl (by rw [hfilled]; exact hstatus) rfl rfl rfl ?_
  show (if p.schemaVersion = 0 then _ else p.schemaVersion) = p.schemaVersion
  rw [if_neg (by rw [hversion]; decide)]

/-- The start in `Z` form is read again as itself. -/
theorem toIsoZ_of_isoOr {text stamp : String} (h : isoOr text text = .ok stamp) :
    toIsoZ stamp = toIsoZ text := by
  unfold isoOr at h
  cases hz : toIsoZ text with
  | ok iso =>
    rw [hz] at h
    cases h
    cases hu : utcOf text with
    | error e =>
      rw [toIsoZ, hu] at hz
      cases hz
    | ok t =>
      rw [toIsoZ, hu] at hz
      cases hz
      exact toIsoZ_isoZ t
  | error e =>
    rw [hz] at h
    cases e <;> first | (cases h; exact hz) | cases h

theorem Marked.startKey {w : StatusWrite} (h : Marked a w p) : startKey p = startKey a := by
  rw [Memory.startKey, Memory.startKey, toIsoZ_of_isoOr h.tStart, h.atomId]

end Put

section Item

variable {w : Encoding} {a p : Atom}

theorem strip_eq_nil {cs : List Char} : strip cs = [] ↔ ∀ c ∈ cs, isSpace c = true := by
  rw [strip, List.reverse_eq_nil_iff, List.dropWhile_eq_nil_iff]
  constructor
  · intro h
    rw [← List.dropWhile_eq_nil_iff]
    by_contra hne
    obtain ⟨c, rest, hc⟩ := List.exists_cons_of_ne_nil hne
    have hspace := h c (by rw [hc]; simp)
    have hnot := List.head_dropWhile_not isSpace hne
    simp only [hc, List.head_cons] at hnot
    rw [hspace] at hnot
    cases hnot
  · intro h c hc
    exact h c ((List.dropWhile_sublist isSpace).subset (List.mem_reverse.mp hc))

/-- An encode of the atom gives vectors. -/
def encodes (w : Encoding) (a : Atom) : Bool :=
  isEmbeddable a && (strip a.contentText.toList ≠ [] || w.resolves a.mediaIds)

/-- Rows under their own ids that pass the checks of a put. -/
structure StoreOk (s : JsonlMemoryStore) : Prop where
  keyed : Keyed s
  storable : ∀ id a, s.byId.get? id = some a → Storable s.settings a

/-- One row was put. -/
structure Wrote (s t : JsonlMemoryStore) (p : Atom) : Prop where
  settings : t.settings = s.settings
  rows : t.byId = s.byId.set p.atomId p

theorem Wrote.storeOk {s t : JsonlMemoryStore} (h : Wrote s t p) (hs : StoreOk s)
    (hp : Storable s.settings p) : StoreOk t := by
  constructor
  · intro id b hb
    rw [h.rows, Dict.get?_set] at hb
    split_ifs at hb with hid
    · cases hb
      exact hid
    · exact hs.keyed id b hb
  · intro id b hb
    rw [h.settings]
    rw [h.rows, Dict.get?_set] at hb
    split_ifs at hb
    · cases hb
      exact hp
    · exact hs.storable id b hb

theorem isEmbeddable_iff : isEmbeddable a = true ↔
    a.kind ≠ "moment_meta" ∧ (strip a.contentText.toList ≠ [] ∨ a.mediaIds ≠ []) := by
  simp [isEmbeddable]

/-- An embeddable atom whose encode gives no vectors has no text and unresolved media. -/
theorem unresolved_iff (hembed : isEmbeddable a = true) : encodes w a = false ↔
    strip a.contentText.toList = [] ∧ w.resolves a.mediaIds = false := by
  simp [encodes, hembed]

theorem encodeAtom_resolved (h : encodes w a = true) :
    encodeAtom w a = ⟨"ready", none, some (w.forward a), some (w.skipped a.mediaIds)⟩ := by
  simp only [encodes, Bool.and_eq_true, Bool.or_eq_true, decide_eq_true_eq] at h
  obtain ⟨hkind, -⟩ := isEmbeddable_iff.mp h.1
  have hnot : ¬(strip a.contentText.toList = [] ∧ w.resolves a.mediaIds = false) := by
    rintro ⟨htext, hmedia⟩
    obtain h2 | h2 := h.2
    · exact h2 htext
    · rw [hmedia] at h2
      cases h2
  rw [encodeAtom, if_neg hkind, if_neg hnot]

theorem encodeAtom_unresolved (hembed : isEmbeddable a = true) (h : encodes w a = false) :
    encodeAtom w a = ⟨"failed", some "media_unresolved", none, some (w.skipped a.mediaIds)⟩ := by
  obtain ⟨hkind, hsome⟩ := isEmbeddable_iff.mp hembed
  have hblank := (unresolved_iff hembed).mp h
  have hmedia : a.mediaIds ≠ [] := hsome.resolve_left (not_not_intro hblank.1)
  rw [encodeAtom, if_neg hkind, if_pos hblank, if_pos hmedia]

theorem encodeFailed_encodeAtom (w : Encoding) (a : Atom) :
    encodeFailed (encodeAtom w a) = false := by
  unfold encodeAtom
  split_ifs <;> rfl

variable [PyCoerce]

/-- The attempts noted on the atom read as a number. -/
def readable (a : Atom) : Bool := (attemptsOf a).toOption.isSome

/-- A pass leaves the atom pending: its media do not resolve, or its attempts do not read. -/
def isStuck (w : Encoding) (a : Atom) : Bool := isEmbeddable a && !(encodes w a && readable a)

/-- What a pass makes of a pending row. -/
structure Outcome (w : Encoding) (a p : Atom) : Prop where
  atomId : p.atomId = a.atomId
  stuck : isStuck w a = true →
    p.embeddingStatus = "pending" ∧ isStuck w p = true ∧ startKey p = startKey a
  settled : isStuck w a = false →
    p.embeddingStatus = if encodes w a then "ready" else "skipped"

/-- A status write goes through. -/
theorem markStatus_wrote {s : JsonlMemoryStore} (ha : Storable s.settings a) {write : StatusWrite}
    (hstatus : write.status ∈ embeddingStatuses) :
    ∃ p, Wrote s (markStatus s a write) p ∧ Marked a write p ∧ Storable s.settings p := by
  obtain ⟨p, hp, hmarked⟩ := prepare_mark ha hstatus
  obtain ⟨hsettings, hrows⟩ := after_putAtom s (markAtomStatus a write)
  rw [hp] at hrows
  exact ⟨p, ⟨hsettings, hrows⟩, hmarked, storable_prepared hp⟩

/-- The write of a pass over an embeddable pending row, with an index that accepts it. -/
theorem processOne_pending {job : EncodeJob} (hpending : a.embeddingStatus = "pending")
    (hembed : isEmbeddable a = true) (hhealthy : job.embedderOk = true) (hgate : job.gateHeld = none)
    (hupsert : job.upsert = some (.ok true)) {r : EncodeResult} (hresult : job.result = .ok r) :
    processOne job a = (attemptsOf a).map fun before => some (resultWrite job a before r) := by
  unfold processOne
  rw [hpending, if_neg (by decide), if_neg (by rw [hupsert]; simp), hembed, if_neg (by simp),
    hhealthy, hgate, if_neg (by simp), hresult]

/-- Where the pass meets no number of attempts it raises. -/
theorem attemptsOf_unreadable (h : readable a = false) : ∃ e, attemptsOf a = .error e := by
  cases hattempts : attemptsOf a with
  | error e => exact ⟨e, rfl⟩
  | ok n =>
    rw [readable, hattempts] at h
    cases h

theorem attemptsOf_readable (h : readable a = true) : ∃ n, attemptsOf a = .ok n := by
  cases hattempts : attemptsOf a with
  | ok n => exact ⟨n, rfl⟩
  | error e =>
    rw [readable, hattempts] at h
    cases h

/-- A row with unresolved media and no text is so after its status is written. -/
theorem stuck_of_marked {write : StatusWrite} (h : Marked a write p) (hembed : isEmbeddable a = true)
    (hnot : encodes w a = false) : isStuck w p = true := by
  obtain ⟨hblank, hmedia⟩ := (unresolved_iff hembed).mp hnot
  obtain ⟨hkind, hsome⟩ := isEmbeddable_iff.mp hembed
  have hids : a.mediaIds ≠ [] := hsome.resolve_left (not_not_intro hblank)
  have hpblank : strip p.contentText.toList = [] := by
    obtain ⟨n, hn⟩ := h.text
    rw [strip_eq_nil, hn]
    exact fun c hc => strip_eq_nil.mp hblank c (List.mem_of_mem_take hc)
  have hpembed : isEmbeddable p = true :=
    isEmbeddable_iff.mpr ⟨by rw [h.kind]; exact hkind, .inr (by rw [h.mediaIds]; exact hids)⟩
  have hpnot : encodes w p = false :=
    (unresolved_iff hpembed).mpr ⟨hpblank, by rw [h.mediaIds]; exact hmedia⟩
  rw [isStuck, hpembed, hpnot]
  rfl

/-- One pass over a pending row: its outcome, the other rows as they were, and the id queued again
exactly where the attempts do not read. -/
theorem processed_outcome {s : JsonlMemoryStore} (hs : StoreOk s) {id : String}
    (hget : s.getAtom id = some a) (hpending : a.embeddingStatus = "pending") (maxAttempts : Int) :
    ∃ p, (processed w maxAttempts s id).1.getAtom id = some p ∧ Outcome w a p ∧
      (∀ j, j ≠ id → (processed w maxAttempts s id).1.getAtom j = s.getAtom j) ∧
      StoreOk (processed w maxAttempts s id).1 ∧
      (processed w maxAttempts s id).2 = (isEmbeddable a && !readable a) := by
  have hkey : a.atomId = id := hs.keyed id a hget
  have hstorable := hs.storable id a hget
  -- A write of the pass, whatever its status.
  have hwrite (write : StatusWrite) (hstatus : write.status ∈ embeddingStatuses) :
      ∃ p, (markStatus s a write).getAtom id = some p ∧ Marked a write p ∧
        (∀ j, j ≠ id → (markStatus s a write).getAtom j = s.getAtom j) ∧
        StoreOk (markStatus s a write) := by
    obtain ⟨p, hwrote, hmarked, hp⟩ := markStatus_wrote hstorable hstatus
    have hpid : p.atomId = id := hmarked.atomId.trans hkey
    refine ⟨p, ?_, hmarked, ?_, hwrote.storeOk hs hp⟩
    · rw [getAtom, hwrote.rows, hpid, Dict.get?_set_self]
    · intro j hj
      rw [getAtom, hwrote.rows, hpid, Dict.get?_set_ne _ _ (Ne.symm hj)]
      rfl
  cases hembed : isEmbeddable a with
  | false =>
    have hnone (job : EncodeJob) (hupsert : job.upsert = some (.ok true)) : processOne job a =
        .ok (some ⟨"skipped", [("embed_error", .str "no modalities")]⟩) := by
      unfold processOne
      rw [hpending, if_neg (by decide), if_neg (by rw [hupsert]; simp), hembed, if_pos (by simp)]
    obtain ⟨p, hp, hmarked, hothers, hok⟩ := hwrite
      ⟨"skipped", [("embed_error", .str "no modalities")]⟩ (by decide)
    have hrun : processed w maxAttempts s id =
        (markStatus s a ⟨"skipped", [("embed_error", .str "no modalities")]⟩, false) := by
      simp only [processed, hget]
      rw [hnone _ rfl]
      simp only [encodeFailed_encodeAtom, Bool.false_and]
    rw [hrun]
    refine ⟨p, hp, ⟨hmarked.atomId, ?_, ?_⟩, hothers, hok, rfl⟩
    · intro hstuck
      rw [isStuck, hembed] at hstuck
      cases hstuck
    · intro _
      rw [encodes, hembed]
      exact hmarked.status
  | true =>
    have hone (job : EncodeJob) (hhealthy : job.embedderOk = true) (hgate : job.gateHeld = none)
        (hupsert : job.upsert = some (.ok true)) (hresult : job.result = .ok (encodeAtom w a)) :=
      processOne_pending hpending hembed hhealthy hgate hupsert hresult
    cases hread : readable a with
    | false =>
      obtain ⟨e, he⟩ := attemptsOf_unreadable hread
      have hrun : processed w maxAttempts s id = (s, true) := by
        simp only [processed, hget]
        rw [hone _ rfl rfl rfl rfl, he]
        rfl
      have hstuck : isStuck w a = true := by
        rw [isStuck, hembed, hread, Bool.and_false]
        rfl
      rw [hrun]
      refine ⟨a, hget, ⟨rfl, fun _ => ⟨hpending, hstuck, rfl⟩, ?_⟩, fun _ _ => rfl, hs, rfl⟩
      intro hfree
      rw [hstuck] at hfree
      cases hfree
    | true =>
      obtain ⟨n, hn⟩ := attemptsOf_readable hread
      have hrun : processed w maxAttempts s id = (markStatus s a (resultWrite
          ⟨id, true, none, .ok (encodeAtom w a), some (.ok true), maxAttempts⟩ a n
            (encodeAtom w a)), false) := by
        simp only [processed, hget]
        rw [hone _ rfl rfl rfl rfl, hn]
        simp only [Except.map, encodeFailed_encodeAtom, Bool.false_and]
      generalize hjob : (⟨id, true, none, .ok (encodeAtom w a), some (.ok true), maxAttempts⟩ :
        EncodeJob) = job at hrun
      have hupsert : job.upsert = some (.ok true) := by
        rw [← hjob]
      cases hencodes : encodes w a with
      | true =>
        have hready : (resultWrite job a n (encodeAtom w a)).status = "ready" := by
          rw [encodeAtom_resolved hencodes, resultWrite, if_neg (by simp), if_neg (by simp)]
          simp only
          rw [if_neg (by simp), encodedWrite, hupsert]
        obtain ⟨p, hp, hmarked, hothers, hok⟩ := hwrite
          (resultWrite job a n (encodeAtom w a)) (by rw [hready]; decide)
        rw [hrun]
        refine ⟨p, hp, ⟨hmarked.atomId, ?_, ?_⟩, hothers, hok, rfl⟩
        · intro hstuck
          rw [isStuck, hembed, hencodes, hread] at hstuck
          cases hstuck
        · intro _
          rw [hmarked.status, hready, hencodes]
          rfl
      | false =>
        have hstays : (resultWrite job a n (encodeAtom w a)).status = "pending" := by
          rw [encodeAtom_unresolved hembed hencodes, resultWrite, if_pos rfl]
        obtain ⟨p, hp, hmarked, hothers, hok⟩ := hwrite
          (resultWrite job a n (encodeAtom w a)) (by rw [hstays]; decide)
        rw [hrun]
        refine ⟨p, hp, ⟨hmarked.atomId, ?_, ?_⟩, hothers, hok, rfl⟩
        · intro _
          exact ⟨hmarked.status.trans hstays, stuck_of_marked hmarked hembed hencodes,
            hmarked.startKey⟩
        · intro hfree
          rw [isStuck, hembed, hencodes] at hfree
          cases hfree

end Item

end Elyra.Memory
