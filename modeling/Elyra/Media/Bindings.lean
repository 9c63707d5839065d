import Elyra.Media.Store

namespace Elyra.Media

section Invariant

variable (sha256 : List UInt8 → String)

/-- Each meta lies under its own id and has a blob, and each blob lies under its digest. -/
structure MediaStore.Sound (s : MediaStore) : Prop where
  named : ∀ id att, s.metas.get? id = some att → att.id = id ∧ validateAttId id = true
  kept : ∀ id att, s.metas.get? id = some att → (s.blobs.get? att.sha256).isSome
  hashed : ∀ sha data, s.blobs.get? sha = some data → sha256 data = sha

def MediaStore.Referred (s : MediaStore) (id sha : String) : Prop :=
  ∃ att, s.metas.get? id = some att ∧ att.sha256 = sha

/-- What a thread relies on, and what a bind that returned has promised. -/
def Place.Holds (s : MediaStore) : Place → Prop
  | .putMeta r _ => (s.blobs.get? (sha256 r.data)).isSome
  | .bindMeta att _ => att.boundMessageId = none
  | .delScan _ _ sha ids => ∀ id, s.Referred id sha → id ∈ ids
  | .delBlob _ _ sha => ∀ id, ¬s.Referred id sha
  | .done (.bound att messageId) =>
    ∃ cur, s.metas.get? att.id = some cur ∧ cur.boundMessageId = some messageId
  | _ => True

/-- A thread that has listed the metas to decide about the blob. -/
def Place.scans (sha : String) : Place → Bool
  | .delScan _ _ sha' _ => sha' = sha
  | .delBlob _ _ sha' => sha' = sha
  | _ => false

/-- A thread that counts on the blob it found or wrote. -/
def Place.stores (sha : String) : Place → Bool
  | .putMeta r _ => sha256 r.data = sha
  | _ => false

/-- A step whose reads still hold: a meta is written over what was read, no garbage collection or
call deletes a meta that was bound meanwhile, and no put of the same bytes overlaps the scan and
unlink of their blob. -/
def Undisturbed (s : MediaState) : MediaAction → Prop
  | .start _ => True
  | .step i =>
    match s.threads[i]? with
    | some (.putMeta r aid) =>
      s.store.metas.get? aid = none ∧ ∀ q ∈ s.threads, q.scans (sha256 r.data) = false
    | some (.bindMeta att _) => s.store.get att.id = some att
    | some (.xaiMeta att _ _) => s.store.get att.id = some att
    | some (.delMeta _ attId _) => (s.store.get attId).all fun att => att.boundMessageId = none
    | some (.delBlob _ _ sha) => ∀ q ∈ s.threads, q.stores sha256 sha = false
    | _ => True

structure MediaState.Sound (s : MediaState) : Prop where
  store : s.store.Sound sha256
  threads : ∀ p ∈ s.threads, p.Holds sha256 s.store

end Invariant

section Frames

variable {sha256 : List UInt8 → String} {s : MediaStore}

theorem MediaStore.get_eq (hs : s.Sound sha256) {id : String} {att : Attachment}
    (h : s.metas.get? id = some att) : s.get id = some att.fromDict := by
  unfold MediaStore.get
  rw [if_pos (hs.named id att h).2, h]
  rfl

theorem MediaStore.metas_of_get {id : String} {att : Attachment} (h : s.get id = some att) :
    ∃ raw, s.metas.get? id = some raw ∧ att = raw.fromDict := by
  unfold MediaStore.get at h
  split_ifs at h
  obtain ⟨raw, hraw, heq⟩ := Option.map_eq_some_iff.mp h
  exact ⟨raw, hraw, heq.symm⟩

/-- A blob that is written lies under its digest. -/
theorem MediaStore.Sound.writeBlob (hs : s.Sound sha256) (data : List UInt8) :
    MediaStore.Sound sha256 { s with blobs := s.blobs.set (sha256 data) data } ∧
      ∀ p : Place, p.Holds sha256 s →
        p.Holds sha256 { s with blobs := s.blobs.set (sha256 data) data } := by
  have hmore : ∀ sha, (s.blobs.get? sha).isSome →
      ((s.blobs.set (sha256 data) data).get? sha).isSome := by
    intro sha h
    rw [Dict.get?_set]
    split_ifs
    · rfl
    · exact h
  refine ⟨⟨hs.named, ?_, ?_⟩, ?_⟩
  · exact fun id att h => hmore _ (hs.kept id att h)
  · intro sha found h
    replace h : (s.blobs.set (sha256 data) data).get? sha = some found := h
    rw [Dict.get?_set] at h
    split_ifs at h with hsha
    · rw [← Option.some.inj h]
      exact hsha
    · exact hs.hashed sha found h
  · intro p hp
    cases p with
    | putMeta r aid => exact hmore _ hp
    | done reply => cases reply <;> exact hp
    | _ => exact hp

/-- A new meta, of bytes that no thread scans for. -/
theorem MediaStore.Sound.writeNew (hs : s.Sound sha256) {att : Attachment}
    (hvalid : validateAttId att.id = true) (hblob : (s.blobs.get? att.sha256).isSome)
    (hnew : s.metas.get? att.id = none) :
    MediaStore.Sound sha256 { s with metas := s.metas.set att.id att } ∧
      ∀ p : Place, p.scans att.sha256 = false → p.Holds sha256 s →
        p.Holds sha256 { s with metas := s.metas.set att.id att } := by
  have hreferred : ∀ id sha, sha ≠ att.sha256 →
      MediaStore.Referred { s with metas := s.metas.set att.id att } id sha → s.Referred id sha := by
    intro id sha hsha ⟨cur, hcur, hown⟩
    replace hcur : (s.metas.set att.id att).get? id = some cur := hcur
    rw [Dict.get?_set] at hcur
    split_ifs at hcur
    · rw [← Option.some.inj hcur] at hown
      exact absurd hown.symm hsha
    · exact ⟨cur, hcur, hown⟩
  refine ⟨⟨?_, ?_, hs.hashed⟩, ?_⟩
  · intro id cur h
    replace h : (s.metas.set att.id att).get? id = some cur := h
    rw [Dict.get?_set] at h
    split_ifs at h with hid
    · rw [← Option.some.inj h, ← hid]
      exact ⟨rfl, hvalid⟩
    · exact hs.named id cur h
  · intro id cur h
    replace h : (s.metas.set att.id att).get? id = some cur := h
    rw [Dict.get?_set] at h
    split_ifs at h
    · rw [← Option.some.inj h]
      exact hblob
    · exact hs.kept id cur h
  · intro p hfree hp
    cases p with
    | delScan d attId sha ids =>
      have hsha : sha ≠ att.sha256 := of_decide_eq_false hfree
      exact fun id hid => hp id (hreferred id sha hsha hid)
    | delBlob d attId sha =>
      have hsha : sha ≠ att.sha256 := of_decide_eq_false hfree
      exact fun id hid => hp id (hreferred id sha hsha hid)
    | done reply =>
      cases reply with
      | bound a m =>
        obtain ⟨cur, hcur, hbound⟩ := hp
        refine ⟨cur, ?_, hbound⟩
        show (s.metas.set att.id att).get? a.id = some cur
        rw [Dict.get?_set, if_neg]
        · exact hcur
        · intro hid
          rw [← hid, hnew] at hcur
          cases hcur
      | _ => exact hp
    | _ => exact hp

/-- A meta written over one of the same bytes, which loses no binding. -/
theorem MediaStore.Sound.rewrite (hs : s.Sound sha256) {cur att : Attachment}
    (hcur : s.metas.get? att.id = some cur) (hsha : att.sha256 = cur.sha256)
    (hbound : cur.boundMessageId = none ∨ att.boundMessageId = cur.boundMessageId) :
    MediaStore.Sound sha256 { s with metas := s.metas.set att.id att } ∧
      ∀ p : Place, p.Holds sha256 s →
        p.Holds sha256 { s with metas := s.metas.set att.id att } := by
  have hreferred : ∀ id sha,
      MediaStore.Referred { s with metas := s.metas.set att.id att } id sha → s.Referred id sha := by
    intro id sha ⟨found, hfound, hown⟩
    replace hfound : (s.metas.set att.id att).get? id = some found := hfound
    rw [Dict.get?_set] at hfound
    split_ifs at hfound with hid
    · rw [← Option.some.inj hfound, hsha] at hown
      rw [hid] at hcur
      exact ⟨cur, hcur, hown⟩
    · exact ⟨found, hfound, hown⟩
  refine ⟨⟨?_, ?_, hs.hashed⟩, ?_⟩
  · intro id found h
    replace h : (s.metas.set att.id att).get? id = some found := h
    rw [Dict.get?_set] at h
    split_ifs at h with hid
    · rw [← Option.some.inj h, ← hid]
      exact ⟨rfl, (hs.named _ cur hcur).2⟩
    · exact hs.named id found h
  · intro id found h
    replace h : (s.metas.set att.id att).get? id = some found := h
    rw [Dict.get?_set] at h
    split_ifs at h
    · rw [← Option.some.inj h, hsha]
      exact hs.kept _ cur hcur
    · exact hs.kept id found h
  · intro p hp
    cases p with
    | delScan d attId sha ids => exact fun id hid => hp id (hreferred id sha hid)
    | delBlob d attId sha => exact fun id hid => hp id (hreferred id sha hid)
    | done reply =>
      cases reply with
      | bound a m =>
        obtain ⟨found, hfound, hm⟩ := hp
        show ∃ x, (s.metas.set att.id att).get? a.id = some x ∧ _
        rw [Dict.get?_set]
        split_ifs with hid
        · refine ⟨att, rfl, ?_⟩
          rw [← hid, hcur] at hfound
          obtain rfl := Option.some.inj hfound
          obtain hnone | hsame := hbound
          · rw [hnone] at hm
            cases hm
          · exact hsame.trans hm
        · exact ⟨found, hfound, hm⟩
      | _ => exact hp
    | _ => exact hp

/-- The unlink of a meta that is not bound. -/
theorem MediaStore.Sound.unlink (hs : s.Sound sha256) {attId : String}
    (hfree : ∀ att, s.metas.get? attId = some att → att.boundMessageId = none) :
    MediaStore.Sound sha256 { s with metas := s.metas.pop attId } ∧
      ∀ p : Place, p.Holds sha256 s →
        p.Holds sha256 { s with metas := s.metas.pop attId } := by
  have hless : ∀ id att, (s.metas.pop attId).get? id = some att → s.metas.get? id = some att := by
    intro id att h
    rw [Dict.get?_pop] at h
    split_ifs at h
    exact h
  have hreferred : ∀ id sha,
      MediaStore.Referred { s with metas := s.metas.pop attId } id sha → s.Referred id sha :=
    fun id _ ⟨att, hatt, hown⟩ => ⟨att, hless id att hatt, hown⟩
  refine ⟨⟨?_, ?_, hs.hashed⟩, ?_⟩
  · exact fun id att h => hs.named id att (hless id att h)
  · exact fun id att h => hs.kept id att (hless id att h)
  · intro p hp
    cases p with
    | delScan d attId sha ids => exact fun id hid => hp id (hreferred id sha hid)
    | delBlob d attId sha => exact fun id hid => hp id (hreferred id sha hid)
    | done reply =>
      cases reply with
      | bound a m =>
        obtain ⟨cur, hcur, hm⟩ := hp
        refine ⟨cur, ?_, hm⟩
        show (s.metas.pop attId).get? a.id = some cur
        rw [Dict.get?_pop, if_neg]
        · exact hcur
        · intro hid
          rw [← hid] at hcur
          rw [hfree cur hcur] at hm
          cases hm
      | _ => exact hp
    | _ => exact hp

/-- The unlink of a blob that no meta refers to and no put counts on. -/
theorem MediaStore.Sound.unlinkBlob (hs : s.Sound sha256) {sha : String}
    (hfree : ∀ id, ¬s.Referred id sha) :
    MediaStore.Sound sha256 { s with blobs := s.blobs.pop sha } ∧
      ∀ p : Place, p.stores sha256 sha = false → p.Holds sha256 s →
        p.Holds sha256 { s with blobs := s.blobs.pop sha } := by
  refine ⟨⟨hs.named, ?_, ?_⟩, ?_⟩
  · intro id att h
    show ((s.blobs.pop sha).get? att.sha256).isSome = true
    rw [Dict.get?_pop, if_neg]
    · exact hs.kept id att h
    · exact fun hsha => hfree id ⟨att, h, hsha.symm⟩
  · intro other data h
    replace h : (s.blobs.pop sha).get? other = some data := h
    rw [Dict.get?_pop] at h
    split_ifs at h
    exact hs.hashed other data h
  · intro p hstores hp
    cases p with
    | putMeta r aid =>
      have hsha : sha256 r.data ≠ sha := of_decide_eq_false hstores
      show ((s.blobs.pop sha).get? (sha256 r.data)).isSome = true
      rw [Dict.get?_pop, if_neg (Ne.symm hsha)]
      exact hp
    | done reply => cases reply <;> exact hp
    | _ => exact hp

end Frames

section Steps

variable {sha256 : List UInt8 → String} {s : MediaStore}

theorem gcNext_holds (deletedIds : List String) (rest : List Attachment) :
    (gcNext deletedIds rest).Holds sha256 s := by
  induction rest with
  | nil => trivial
  | cons a rest ih =>
    unfold gcNext
    split_ifs
    · exact ih
    · trivial

theorem Deleter.finish_holds (d : Deleter) (attId : String) (existed : Bool) :
    (d.finish attId existed).Holds sha256 s := by
  cases d with
  | call removeBlobIfOrphan => trivial
  | gc rest deletedIds => exact gcNext_holds _ rest

theorem scanNext_holds {d : Deleter} {attId sha : String} {ids : List String}
    (h : ∀ id, s.Referred id sha → id ∈ ids) : (scanNext d attId sha ids).Holds sha256 s := by
  unfold scanNext
  split_ifs with hnil
  · intro id hid
    have hmem := h id hid
    rw [hnil] at hmem
    cases hmem
  · exact h

theorem enter_holds (call : MediaCall) : call.enter.Holds sha256 s := by
  unfold MediaCall.enter
  cases call with
  | putBytes r =>
    dsimp only
    split_ifs
    · trivial
    · cases r.attId with
      | none => trivial
      | some aid =>
        dsimp only
        split_ifs <;> trivial
  | bindMessage attId messageId =>
    dsimp only
    split_ifs <;> trivial
  | setXaiFile attId fileId expiresAt =>
    dsimp only
    split_ifs <;> trivial
  | deleteAttachment attId removeBlobIfOrphan => trivial
  | gcUnboundAttachments r => trivial

/-- What the step of a thread in place `p` leaves. -/
def StepsWell (sha256 : List UInt8 → String) (s : MediaState) (p : Place) : Prop :=
  (p.step sha256 s.store).2.Sound sha256 ∧ (p.step sha256 s.store).1.Holds sha256 (p.step sha256 s.store).2 ∧
    ∀ q ∈ s.threads, q.Holds sha256 (p.step sha256 s.store).2

theorem stepsWell_of_same {s : MediaState} (hs : s.Sound sha256) {p q : Place}
    (hstep : p.step sha256 s.store = (q, s.store)) (hq : q.Holds sha256 s.store) :
    StepsWell sha256 s p := by
  unfold StepsWell
  rw [hstep]
  exact ⟨hs.store, hq, hs.threads⟩

/-- A write of a read record with another field set. -/
theorem stepsWell_rewrite {s : MediaState} (hs : s.Sound sha256) {p : Place} {read att : Attachment}
    {reply : MediaReply} (hstep : p.step sha256 s.store = s.store.writeMeta att reply)
    (hread : s.store.get att.id = some read) (hsha : att.sha256 = read.sha256)
    (hbound : read.boundMessageId = none ∨ att.boundMessageId = read.boundMessageId)
    (hreply : (Place.done reply).Holds sha256
      { s.store with metas := s.store.metas.set att.id att }) : StepsWell sha256 s p := by
  obtain ⟨raw, hraw, rfl⟩ := MediaStore.metas_of_get hread
  obtain ⟨hsound, hframe⟩ := hs.store.rewrite hraw hsha hbound
  have hvalid := (hs.store.named _ raw hraw).2
  unfold StepsWell
  rw [hstep]
  unfold MediaStore.writeMeta
  rw [if_pos hvalid]
  exact ⟨hsound, hreply, fun q hq => hframe q (hs.threads q hq)⟩

theorem MediaState.Sound.stepsWell {s : MediaState} (hs : s.Sound sha256) {i : Nat} {p : Place}
    (hp : s.threads[i]? = some p) (hc : Undisturbed sha256 s (.step i)) : StepsWell sha256 s p := by
  have hmem : p ∈ s.threads := List.mem_of_getElem? hp
  have hholds : p.Holds sha256 s.store := hs.threads p hmem
  unfold Undisturbed at hc
  dsimp only at hc
  rw [hp] at hc
  cases p with
  | putGet r aid =>
    cases hget : s.store.get aid with
    | none =>
      apply stepsWell_of_same hs (q := .putTest r aid)
      · unfold Place.step
        dsimp only
        rw [hget]
      · trivial
    | some att =>
      by_cases hsha : att.sha256 = sha256 r.data
      · apply stepsWell_of_same hs (q := .done (.stored att))
        · unfold Place.step
          dsimp only
          rw [hget]
          exact if_pos hsha
        · trivial
      · apply stepsWell_of_same hs (q := .done .valueError)
        · unfold Place.step
          dsimp only
          rw [hget]
          exact if_neg hsha
        · trivial
  | putTest r aid =>
    apply stepsWell_of_same hs rfl
    split_ifs with hblob
    · exact hblob
    · trivial
  | putBlob r aid =>
    obtain ⟨hsound, hframe⟩ := hs.store.writeBlob r.data
    refine ⟨hsound, ?_, fun q hq => hframe q (hs.threads q hq)⟩
    show ((s.store.blobs.set (sha256 r.data) r.data).get? (sha256 r.data)).isSome = true
    rw [Dict.get?_set_self]
    rfl
  | putMeta r aid =>
    by_cases hvalid : validateAttId aid = true
    · have hid : validateAttId (r.attachment sha256 aid).id = true := hvalid
      obtain ⟨hsound, hframe⟩ := hs.store.writeNew hid hholds hc.1
      have hstep : (Place.putMeta r aid).step sha256 s.store =
          (.done (.stored (r.attachment sha256 aid)),
            { s.store with metas := s.store.metas.set aid (r.attachment sha256 aid) }) :=
        if_pos hvalid
      unfold StepsWell
      rw [hstep]
      exact ⟨hsound, trivial, fun q hq => hframe q (hc.2 q hq) (hs.threads q hq)⟩
    · exact stepsWell_of_same hs (q := .done .valueError) (if_neg hvalid) trivial
  | bindGet attId messageId =>
    cases hget : s.store.get attId with
    | none =>
      apply stepsWell_of_same hs (q := .done .notFound)
      · unfold Place.step
        dsimp only
        rw [hget]
      · trivial
    | some att =>
      have hstep : (Place.bindGet attId messageId).step sha256 s.store =
          if att.boundMessageId ≠ none ∧ att.boundMessageId ≠ some messageId then
            (.done .valueError, s.store)
          else if att.boundMessageId = some messageId then
            (.done (.bound att messageId), s.store)
          else (.bindMeta att messageId, s.store) := by
        unfold Place.step
        dsimp only
        rw [hget]
      by_cases hother : att.boundMessageId ≠ none ∧ att.boundMessageId ≠ some messageId
      · rw [if_pos hother] at hstep
        exact stepsWell_of_same hs hstep trivial
      · rw [if_neg hother] at hstep
        by_cases hsame : att.boundMessageId = some messageId
        · rw [if_pos hsame] at hstep
          apply stepsWell_of_same hs hstep
          obtain ⟨raw, hraw, rfl⟩ := MediaStore.metas_of_get hget
          have hid := (hs.store.named _ raw hraw).1
          refine ⟨raw, ?_, hsame⟩
          show s.store.metas.get? raw.id = some raw
          rw [hid, hraw]
        · rw [if_neg hsame] at hstep
          apply stepsWell_of_same hs hstep
          show att.boundMessageId = none
          by_contra hne
          exact hother ⟨hne, hsame⟩
  | bindMeta att messageId =>
    refine @stepsWell_rewrite sha256 s hs _ att
      { att with boundMessageId := some messageId } _ rfl hc rfl (.inl hholds) ?_
    exact ⟨_, Dict.get?_set_self _ _ _, rfl⟩
  | xaiGet attId fileId expiresAt =>
    cases hget : s.store.get attId with
    | none =>
      apply stepsWell_of_same hs (q := .done .notFound)
      · unfold Place.step
        dsimp only
        rw [hget]
      · trivial
    | some att =>
      apply stepsWell_of_same hs (q := .xaiMeta att fileId expiresAt)
      · unfold Place.step
        dsimp only
        rw [hget]
      · trivial
  | xaiMeta att fileId expiresAt =>
    exact @stepsWell_rewrite sha256 s hs _ att
      { att with
        xaiFileId := some (.ofList (strip fileId.toList))
        xaiFileExpiresAt := expiresAt } _ rfl hc rfl (.inr rfl) trivial
  | delGet d attId =>
    cases hget : s.store.get attId with
    | none =>
      apply stepsWell_of_same hs (q := d.finish attId false)
      · unfold Place.step
        dsimp only
        rw [hget]
      · exact d.finish_holds attId false
    | some att =>
      apply stepsWell_of_same hs (q := .delMeta d attId att.sha256)
      · unfold Place.step
        dsimp only
        rw [hget]
      · trivial
  | delMeta d attId sha =>
    have hfree : ∀ att, s.store.metas.get? attId = some att → att.boundMessageId = none := by
      intro att hatt
      dsimp only at hc
      rw [MediaStore.get_eq hs.store hatt] at hc
      exact of_decide_eq_true hc
    obtain ⟨hsound, hframe⟩ := hs.store.unlink hfree
    refine ⟨hsound, ?_, fun q hq => hframe q (hs.threads q hq)⟩
    show (if d.removeBlob ∧ sha ≠ "" then Place.delList d attId sha
      else d.finish attId true).Holds sha256 _
    split_ifs
    · trivial
    · exact d.finish_holds attId true
  | delList d attId sha =>
    apply stepsWell_of_same hs rfl
    apply scanNext_holds
    rintro id ⟨att, hatt, -⟩
    exact (s.store.metas.mem_keys id).mpr ⟨att, hatt⟩
  | delScan d attId sha ids =>
    cases ids with
    | nil =>
      apply stepsWell_of_same hs (q := .delBlob d attId sha) rfl
      intro id hid
      cases hholds id hid
    | cons otherId ids =>
      by_cases hused : (s.store.get otherId).any (fun other => other.sha256 = sha) = true
      · exact stepsWell_of_same hs (q := d.finish attId true) (if_pos hused)
          (d.finish_holds attId true)
      · have hstep : (Place.delScan d attId sha (otherId :: ids)).step sha256 s.store =
            (scanNext d attId sha ids, s.store) := if_neg hused
        apply stepsWell_of_same hs hstep
        apply scanNext_holds
        intro id hid
        obtain hhead | htail := List.mem_cons.mp (hholds id hid)
        · obtain ⟨att, hatt, hown⟩ := hid
          rw [← hhead, MediaStore.get_eq hs.store hatt] at hused
          exact absurd (decide_eq_true hown) hused
        · exact htail
  | delBlob d attId sha =>
    obtain ⟨hsound, hframe⟩ := hs.store.unlinkBlob hholds
    exact ⟨hsound, d.finish_holds attId true, fun q hq => hframe q (hc q hq) (hs.threads q hq)⟩
  | gcList r => exact stepsWell_of_same hs (q := .gcGet r s.store.listMetaIds []) rfl trivial
  | gcGet r ids found =>
    cases ids with
    | nil => exact stepsWell_of_same hs rfl (gcNext_holds _ _)
    | cons attId ids =>
      exact stepsWell_of_same hs (q := .gcGet r ids (found ++ (s.store.get attId).toList)) rfl trivial
  | gcRelist deletedIds =>
    exact stepsWell_of_same hs (q := .gcReget deletedIds s.store.listMetaIds []) rfl trivial
  | gcReget deletedIds ids found =>
    cases ids with
    | nil => exact stepsWell_of_same hs rfl trivial
    | cons attId ids =>
      exact stepsWell_of_same hs
        (q := .gcReget deletedIds ids (found ++ (s.store.get attId).toList)) rfl trivial
  | done reply => exact stepsWell_of_same hs rfl hholds

theorem MediaState.Sound.step {s : MediaState} (hs : s.Sound sha256) {a : MediaAction}
    (hc : Undisturbed sha256 s a) : (stepMedia sha256 s a).Sound sha256 := by
  cases a with
  | start call =>
    refine ⟨hs.store, ?_⟩
    intro p hp
    obtain hold | hnew := List.mem_append.mp hp
    · exact hs.threads p hold
    · rw [List.mem_singleton.mp hnew]
      exact enter_holds call
  | step i =>
    unfold stepMedia
    dsimp only
    cases hp : s.threads[i]? with
    | none => exact hs
    | some p =>
      obtain ⟨hsound, hnext, hframe⟩ := hs.stepsWell hp hc
      refine ⟨hsound, ?_⟩
      intro q hq
      obtain hold | hnew := List.mem_or_eq_of_mem_set hq
      · exact hframe q hold
      · rw [hnew]
        exact hnext

/-- No attachment is there yet, and no call has been entered. -/
def emptyMedia : MediaState := ⟨⟨.empty, .empty⟩, []⟩

theorem emptyMedia_sound : emptyMedia.Sound sha256 :=
  ⟨⟨fun _ _ h => (nomatch h), fun _ _ h => (nomatch h), fun _ _ h => (nomatch h)⟩,
    fun _ h => (nomatch h)⟩

/-- Every meta has its bytes, and a binding that was returned is there. -/
structure Attached (sha256 : List UInt8 → String) (s : MediaState) : Prop where
  bytes : ∀ id att, s.store.metas.get? id = some att →
    ∃ data, s.store.blobs.get? att.sha256 = some data ∧ sha256 data = att.sha256
  binding : ∀ att messageId, .done (.bound att messageId) ∈ s.threads →
    ∃ cur, s.store.metas.get? att.id = some cur ∧ cur.boundMessageId = some messageId

theorem MediaState.Sound.attached {s : MediaState} (hs : s.Sound sha256) : Attached sha256 s := by
  refine ⟨?_, ?_⟩
  · intro id att h
    obtain ⟨data, hdata⟩ := Option.isSome_iff_exists.mp (hs.store.kept id att h)
    exact ⟨data, hdata, hs.store.hashed _ data hdata⟩
  · exact fun att messageId h => hs.threads _ h

/-- After a run of undisturbed steps every attachment has the bytes of its digest and every
returned binding is there, and the blob a thread is about to unlink belongs to no meta. -/
theorem attachments_keep_bytes_and_binding (sha256 : List UInt8 → String)
    (actions : List MediaAction)
    (hc : Along (stepMedia sha256) (Undisturbed sha256) emptyMedia actions) :
    Attached sha256 (run (stepMedia sha256) emptyMedia actions) ∧
      ∀ d attId sha, .delBlob d attId sha ∈ (run (stepMedia sha256) emptyMedia actions).threads →
        ∀ id att, (run (stepMedia sha256) emptyMedia actions).store.metas.get? id = some att →
          att.sha256 ≠ sha := by
  have hs : (run (stepMedia sha256) emptyMedia actions).Sound sha256 :=
    Along.invariant (MediaState.Sound sha256) (fun _ _ hstep h => h.step hstep) _ actions hc
      emptyMedia_sound
  refine ⟨hs.attached, ?_⟩
  intro d attId sha hmem id att hatt hown
  exact hs.threads _ hmem id ⟨att, hatt, hown⟩

end Steps

section Sample

/-- The digest of no bytes. -/
def emptyDigest : List UInt8 → String :=
  fun _ => "e3b0c44298fc1c149afbf4c8996fb92427ae41e4649b934ca495991b7852b855"

def put (uuid : String) : MediaAction :=
  .start (.putBytes { data := [], filename := "a.txt", uuid, now := ⟨63000000000000000, by decide⟩ })

/-- A put that runs alone, then a bind. -/
def putThenBind : List MediaAction :=
  [put "0", .step 0, .step 0, .step 0, .start (.bindMessage "att_0" "m1"), .step 1, .step 1]

theorem putThenBind_undisturbed :
    Along (stepMedia emptyDigest) (Undisturbed emptyDigest) emptyMedia putThenBind :=
  ⟨trivial, trivial, trivial, ⟨by decide +kernel, by decide +kernel⟩, trivial, trivial,
    show MediaStore.get _ _ = some _ by decide +kernel, trivial⟩

theorem attachments_keep_bytes_and_binding_sample :
    Attached emptyDigest (run (stepMedia emptyDigest) emptyMedia putThenBind) :=
  (attachments_keep_bytes_and_binding emptyDigest putThenBind putThenBind_undisturbed).1

/-- A collection that listed the attachment as unbound deletes it after a bind returned. -/
def boundThenCollected : List MediaAction :=
  [put "0", .step 0, .step 0, .step 0,
    .start (.gcUnboundAttachments { now := ⟨63000100000000000, by decide⟩ }), .step 1, .step 1,
    .start (.bindMessage "att_0" "m1"), .step 2, .step 2,
    .step 1, .step 1, .step 1, .step 1, .step 1, .step 1, .step 1]

def allDone (s : MediaState) : Bool :=
  s.threads.all fun
    | .done _ => true
    | _ => false

theorem collection_deletes_bound_attachment :
    ¬ ∀ actions : List MediaAction,
      allDone (run (stepMedia emptyDigest) emptyMedia actions) = true →
      Attached emptyDigest (run (stepMedia emptyDigest) emptyMedia actions) := by
  intro hall
  have hdone : allDone (run (stepMedia emptyDigest) emptyMedia boundThenCollected) = true := by
    decide +kernel
  have hreturned : (run (stepMedia emptyDigest) emptyMedia boundThenCollected).threads.any
      (fun p => match p with
        | .done (.bound att _) => att.id = "att_0"
        | _ => false) = true := by
    decide +kernel
  have hgone : (run (stepMedia emptyDigest) emptyMedia boundThenCollected).store.metas.items = [] := by
    decide +kernel
  obtain ⟨p, hp, hbound⟩ := List.any_eq_true.mp hreturned
  split at hbound
  · rename_i att messageId
    obtain ⟨cur, hcur, -⟩ := (hall _ hdone).binding att messageId hp
    rw [Dict.get?_eq_some_iff, hgone] at hcur
    cases hcur
  · cases hbound

end Sample

end Elyra.Media
