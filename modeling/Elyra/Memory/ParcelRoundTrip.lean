import Elyra.Memory.RangeQueries
import Elyra.Memory.Weave

namespace Elyra.Memory

open Json JsonlMemoryStore

/-- Rows whose keys increase in one order are sorted into it. -/
theorem sortKeyed_increasing {α β : Type} [LinearOrder β] {key : α → Except PyErr β}
    {rows ordered : List α} {sorted : List (β × α)} (h : sortKeyed key rows = .ok sorted)
    (hincreasing : ordered.Pairwise fun a b => ∀ k l, key a = .ok k → key b = .ok l → k < l)
    (hperm : rows.Perm ordered) : sorted.map Prod.snd = ordered := by
  obtain ⟨hrows, hkeys⟩ := sortKeyed_spec rows sorted h
  have hsorted := sortKeyed_pairwise h
  apply (hrows.trans hperm).eq_of_pairwise _ hsorted
    (hincreasing.imp fun hlt k l hk hl => le_of_lt (hlt k l hk hl))
  intro a b ha hb hab hba
  obtain ⟨p, hp, rfl⟩ := List.mem_map.mp ha
  obtain ⟨q, hq, rfl⟩ := List.mem_map.mp ((hrows.trans hperm).mem_iff.mpr hb)
  have hkp := hkeys p hp
  have hkq := hkeys q hq
  obtain ⟨i, hi, hpi⟩ := List.mem_iff_getElem.mp ((hrows.trans hperm).mem_iff.mp ha)
  obtain ⟨j, hj, hqj⟩ := List.mem_iff_getElem.mp hb
  rw [List.pairwise_iff_getElem] at hincreasing
  rcases Nat.lt_trichotomy i j with hlt | rfl | hlt
  · have hstrict := hincreasing i j hi hj hlt p.1 q.1 (hpi ▸ hkp) (hqj ▸ hkq)
    exact absurd (hba _ _ hkq hkp) (not_le.mpr hstrict)
  · rw [← hpi, ← hqj]
  · have hstrict := hincreasing j i hj hi hlt q.1 p.1 (hqj ▸ hkq) (hpi ▸ hkp)
    exact absurd (hab _ _ hkp hkq) (not_le.mpr hstrict)

section Reading

variable [PyCoerce]

/-- `int(meta.get("parcel_index", 0))`. -/
def parcelIndex (a : Atom) : Except PyErr Int :=
  match a.metadata.get? "parcel_index" with
  | none => .ok 0
  | some v =>
    match pyInt v with
    | some n => .ok n
    | none => .error (.valueError [.text "parcel_index"])

/-- The key a parcel is sorted by. -/
def parcelKey (a : Atom) : Except PyErr (Int ×ₗ String) := do
  return toLex (← parcelIndex a, a.atomId)

/-- `reconstruct_text`. -/
def reconstructText (parent : Atom) (parcels : List Atom) : Except PyErr String := do
  let ordered ← sortKeyed parcelKey parcels
  return .ofList (parent.contentText.toList ++ ordered.flatMap fun p => p.2.contentText.toList)

/-- The atoms are put one after another. -/
def putEach : List Atom → Py JsonlMemoryStore Unit
  | [] => return ()
  | a :: atoms => do
    let _ ← putAtom a
    putEach atoms

end Reading

section Split

theorem rfind_bound (pat cs : List Char) (i : Nat) (h : rfind pat cs = some i) :
    i + pat.length ≤ cs.length := by
  induction cs generalizing i with
  | nil =>
    rw [rfind] at h
    split_ifs at h with hpat
    rw [← Option.some.inj h, hpat]
    simp
  | cons c cs ih =>
    rw [rfind] at h
    cases hrest : rfind pat cs with
    | some j =>
      rw [hrest] at h
      have hj := ih j hrest
      have hi : j + 1 = i := Option.some.inj h
      simp only [List.length_cons]
      omega
    | none =>
      rw [hrest] at h
      dsimp only at h
      split_ifs at h with hpre
      have hle := (List.isPrefixOf_iff_prefix.mp hpre).length_le
      have hi : 0 = i := Option.some.inj h
      omega

/-- A cut takes at least one character and stays inside the window. -/
theorem bestCut_bound (window : List Char) (h : window ≠ []) :
    0 < bestCut window ∧ bestCut window ≤ window.length := by
  have hpos := List.length_pos_of_ne_nil h
  unfold bestCut
  split
  · rename_i i hfound
    have hle := rfind_bound _ _ _ hfound
    simp only [List.length_cons, List.length_nil] at hle
    omega
  · rename_i i hfound _
    have hle := rfind_bound _ _ _ hfound
    simp only [List.length_cons, List.length_nil] at hle
    omega
  · exact ⟨hpos, le_refl _⟩

/-- What is cut off a text that is too long: some of it, and no more than fits. -/
theorem cut_bound {maxChars : Nat} (hmax : 0 < maxChars) {remaining : List Char}
    (h : maxChars < remaining.length) :
    let cut := bestCut (remaining.take maxChars)
    0 < cut ∧ cut ≤ maxChars := by
  have hlen : (remaining.take maxChars).length = maxChars := by
    rw [List.length_take]
    omega
  have hne : remaining.take maxChars ≠ [] := by
    apply List.ne_nil_of_length_pos
    omega
  have hcut := bestCut_bound _ hne
  rw [hlen] at hcut
  exact hcut

theorem splitLoop_cut {maxChars : Nat} (hmax : 0 < maxChars) {remaining : List Char}
    (h : maxChars < remaining.length) (passes : Nat) :
    splitLoop maxChars (passes + 1) remaining =
      remaining.take (bestCut (remaining.take maxChars)) ::
        splitLoop maxChars passes (remaining.drop (bestCut (remaining.take maxChars))) := by
  have hcut := cut_bound hmax h
  have hne : remaining ≠ [] := by
    apply List.ne_nil_of_length_pos
    omega
  rw [splitLoop, if_neg hne, if_neg (by omega)]
  have hpos : bestCut (remaining.take maxChars) ≠ 0 := by
    have := hcut.1
    omega
  simp only [if_neg hpos]

theorem splitLoop_last {maxChars : Nat} {remaining : List Char} (hne : remaining ≠ [])
    (h : remaining.length ≤ maxChars) (passes : Nat) :
    splitLoop maxChars (passes + 1) remaining = [remaining] := by
  rw [splitLoop, if_neg hne, if_pos h]

theorem splitLoop_nil (maxChars passes : Nat) : splitLoop maxChars passes [] = [] := by
  cases passes with
  | zero => rfl
  | succ passes => rw [splitLoop, if_pos rfl]

/-- The chunks of a text: all of it, no empty piece, and none that is too long. -/
structure Partitions (text : List Char) (cap : Int) (chunks : List (List Char)) : Prop where
  whole : chunks.flatten = text
  nonempty : text ≠ [] → ∀ c ∈ chunks, c ≠ []
  fits : ∀ c ∈ chunks, (c.length : Int) ≤ cap

/-- A pass for each character is enough. -/
theorem splitLoop_partitions {maxChars : Nat} (hmax : 0 < maxChars) (passes : Nat)
    (remaining : List Char) (h : remaining.length ≤ passes) :
    Partitions remaining maxChars (splitLoop maxChars passes remaining) := by
  induction passes generalizing remaining with
  | zero =>
    obtain rfl : remaining = [] := List.eq_nil_of_length_eq_zero (by omega)
    exact ⟨rfl, fun hne => absurd rfl hne, by simp [splitLoop]⟩
  | succ passes ih =>
    by_cases hne : remaining = []
    · subst hne
      rw [splitLoop_nil]
      exact ⟨rfl, fun hne => absurd rfl hne, by simp⟩
    by_cases hfit : remaining.length ≤ maxChars
    · rw [splitLoop_last hne hfit]
      refine ⟨by simp, ?_, ?_⟩
      · intro _ c hc
        rw [List.mem_singleton.mp hc]
        exact hne
      · intro c hc
        rw [List.mem_singleton.mp hc]
        exact_mod_cast hfit
    have hlong : maxChars < remaining.length := by omega
    obtain ⟨hpos, hle⟩ := cut_bound hmax hlong
    rw [splitLoop_cut hmax hlong]
    generalize bestCut (remaining.take maxChars) = cut at hpos hle ⊢
    have hrest : (remaining.drop cut).length ≤ passes := by
      rw [List.length_drop]
      omega
    have hparts := ih (remaining.drop cut) hrest
    have hhead : (remaining.take cut).length = cut := by
      rw [List.length_take]
      omega
    have hdrop : remaining.drop cut ≠ [] := by
      apply List.ne_nil_of_length_pos
      rw [List.length_drop]
      omega
    refine ⟨?_, ?_, ?_⟩
    · rw [List.flatten_cons, hparts.whole, List.take_append_drop]
    · intro _ c hc
      rcases List.mem_cons.mp hc with rfl | hc
      · apply List.ne_nil_of_length_pos
        omega
      · exact hparts.nonempty hdrop c hc
    · intro c hc
      rcases List.mem_cons.mp hc with rfl | hc
      · omega
      · exact hparts.fits c hc

/-- The loop has ended by then: more passes change nothing. -/
theorem splitLoop_ends {maxChars : Nat} (hmax : 0 < maxChars) (remaining : List Char)
    (passes more : Nat) (hp : remaining.length ≤ passes) (hm : remaining.length ≤ more) :
    splitLoop maxChars passes remaining = splitLoop maxChars more remaining := by
  induction passes generalizing remaining more with
  | zero =>
    obtain rfl : remaining = [] := List.eq_nil_of_length_eq_zero (by omega)
    rw [splitLoop_nil, splitLoop_nil]
  | succ passes ih =>
    by_cases hne : remaining = []
    · rw [hne, splitLoop_nil, splitLoop_nil]
    have hlen := List.length_pos_of_ne_nil hne
    obtain ⟨m, rfl⟩ : ∃ m, more = m + 1 := ⟨more - 1, by omega⟩
    by_cases hfit : remaining.length ≤ maxChars
    · rw [splitLoop_last hne hfit, splitLoop_last hne hfit]
    have hlong : maxChars < remaining.length := by omega
    obtain ⟨hpos, hle⟩ := cut_bound hmax hlong
    rw [splitLoop_cut hmax hlong, splitLoop_cut hmax hlong, ih]
    · rw [List.length_drop]
      omega
    · rw [List.length_drop]
      omega

theorem splitOversizedText_partitions (text : List Char) (maxChars : Int) (h : 0 < maxChars) :
    Partitions text maxChars (splitOversizedText text maxChars) := by
  unfold splitOversizedText
  split_ifs with hfit
  · have hlen : (text.length : Int) ≤ maxChars := by omega
    exact ⟨by simp, by simp, by simpa using hlen⟩
  · have hcast : (maxChars.toNat : Int) = maxChars := by omega
    have hmax : 0 < maxChars.toNat := by omega
    have hparts := splitLoop_partitions hmax text.length text (le_refl _)
    rw [hcast] at hparts
    exact hparts

theorem splitOversizedText_ne_nil (text : List Char) (maxChars : Int) (h : 0 < maxChars) :
    splitOversizedText text maxChars ≠ [] := by
  intro hnil
  have hwhole := (splitOversizedText_partitions text maxChars h).whole
  rw [hnil] at hwhole
  have htext : text = [] := by simpa using hwhole.symm
  rw [htext, splitOversizedText, if_pos (by right; simp; omega)] at hnil
  cases hnil

theorem parcelThreshold_pos (settings : PromoteSettings) : 0 < parcelThreshold settings := by
  unfold parcelThreshold
  simp only
  split_ifs <;> omega

/-- A body within the threshold is not cut by a put, whatever the two settings are. -/
theorem capContent_fits (settings : PromoteSettings) (a : Atom)
    (h : (a.contentText.length : Int) ≤ parcelThreshold settings) :
    capContent settings.toMemorySettings a = a := by
  unfold capContent
  apply if_neg
  rintro ⟨hpos, hlong⟩
  unfold parcelThreshold at h
  simp only [if_neg (not_le.mpr hpos)] at h
  omega

end Split

section Reads

/-- A body that no put cuts. -/
def Fits (settings : MemorySettings) (a : Atom) : Prop := capContent settings a = a

theorem fits_iff (settings : MemorySettings) (a : Atom) :
    Fits settings a ↔
      (0 < settings.atomMaxChars → (a.contentText.length : Int) ≤ settings.atomMaxChars) := by
  unfold Fits capContent
  split_ifs with hlong
  · constructor
    · intro heq
      have hlen := congrArg (fun b : Atom => b.contentText.length) heq
      simp only [String.length_ofList, List.length_take, String.length_toList] at hlen
      omega
    · intro hfit
      have := hfit hlong.1
      omega
  · constructor
    · intro _ hpos
      by_contra hnot
      exact hlong ⟨hpos, by omega⟩
    · intro _
      rfl

theorem normalizeStamps_content {a stamped : Atom} (h : normalizeStamps a = .ok stamped) :
    stamped.contentText = a.contentText := by
  obtain ⟨_, _, h⟩ := except_bind_ok h
  obtain ⟨_, _, h⟩ := except_bind_ok h
  obtain ⟨_, _, h⟩ := except_bind_ok h
  obtain ⟨_, _, h⟩ := except_bind_ok h
  obtain ⟨_, _, h⟩ := except_bind_ok h
  rw [← Except.ok.inj h]

variable [PyCoerce]

omit [PyCoerce] in
/-- A put keeps a body that fits. -/
theorem prepareForPut_content {settings : MemorySettings} {a p : Atom} (hfit : Fits settings a)
    (h : prepareForPut settings a = .ok p) : p.contentText = a.contentText := by
  obtain ⟨stamped, hn, rfl⟩ := prepareForPut_eq settings a p h
  have hsame := normalizeStamps_content hn
  have hstamped : Fits settings stamped := by
    rw [fits_iff, hsame]
    exact (fits_iff settings a).mp hfit
  rw [hstamped]
  exact hsame

/-- What reading an atom back has to give. -/
structure ReadBack (a p : Atom) : Prop where
  atomId : p.atomId = a.atomId
  content : p.contentText = a.contentText
  index : p.metadata.get? "parcel_index" = a.metadata.get? "parcel_index"

theorem putAtom_reads {a : Atom} (h : Puttable a) {s : JsonlMemoryStore}
    (hfit : Fits s.settings a) :
    ∃ p t, putAtom a s = .ok p t ∧ t.settings = s.settings ∧ ReadBack a p ∧
      t.byId = s.byId.set a.atomId p := by
  obtain ⟨p, hp, hprepared⟩ := prepareForPut_puttable h s.settings
  obtain ⟨hsettings, hrows⟩ := after_putAtom s a
  have hreply := putAtom_reply s a h.kind.2
  rw [hp] at hrows hreply
  dsimp only at hrows
  rw [hprepared.atomId] at hrows
  cases hrun : putAtom a s with
  | error e t =>
    rw [split, hrun] at hreply
    cases hreply
  | ok q t =>
    rw [split, hrun] at hreply
    rw [hrun] at hsettings hrows
    obtain rfl : q = p := Except.ok.inj hreply
    refine ⟨q, t, rfl, hsettings, ⟨hprepared.atomId, prepareForPut_content hfit hp, ?_⟩, hrows⟩
    exact hprepared.metadata _ (by decide)

/-- Every atom that is put is read back, and the others are as they were. -/
theorem putEach_reads (atoms : List Atom) (hput : ∀ a ∈ atoms, Puttable a)
    (hnodup : (atoms.map Atom.atomId).Nodup) (s : JsonlMemoryStore)
    (hfit : ∀ a ∈ atoms, Fits s.settings a) :
    ∃ t, putEach atoms s = .ok () t ∧
      (∀ a ∈ atoms, ∃ p, t.getAtom a.atomId = some p ∧ ReadBack a p) ∧
      ∀ id, id ∉ atoms.map Atom.atomId → t.getAtom id = s.getAtom id := by
  induction atoms generalizing s with
  | nil => exact ⟨s, rfl, by simp, fun _ _ => rfl⟩
  | cons a atoms ih =>
    rw [List.map_cons, List.nodup_cons] at hnodup
    obtain ⟨hhead, hrest⟩ := hnodup
    obtain ⟨p, u, hrun, hsettings, hread, hrows⟩ :=
      putAtom_reads (hput a List.mem_cons_self) (hfit a List.mem_cons_self)
    have hfits : ∀ b ∈ atoms, Fits u.settings b := by
      intro b hb
      rw [hsettings]
      exact hfit b (List.mem_cons_of_mem a hb)
    obtain ⟨t, hruns, hreads, hothers⟩ :=
      ih (fun b hb => hput b (List.mem_cons_of_mem a hb)) hrest u hfits
    refine ⟨t, ?_, ?_, ?_⟩
    · rw [putEach, run_bind, hrun]
      exact hruns
    · intro b hb
      rcases List.mem_cons.mp hb with rfl | hb
      · refine ⟨p, ?_, hread⟩
        rw [hothers _ hhead, getAtom, hrows, Dict.get?_set_self]
      · exact hreads b hb
    · intro id hid
      rw [List.map_cons, List.mem_cons, not_or] at hid
      rw [hothers id hid.2, getAtom, hrows, Dict.get?_set_ne _ _ (Ne.symm hid.1)]
      rfl

theorem parcelKey_eq {a : Atom} {i : Int} (h : parcelIndex a = .ok i) :
    parcelKey a = .ok (toLex (i, a.atomId)) := by
  rw [parcelKey, h]
  rfl

/-- Parcels that are read back are put together in the order of their indexes. -/
theorem reconstructText_ordered {parent : Atom} {parcels children : List Atom}
    (hindex : ∀ i (h : i < children.length), parcelIndex children[i] = .ok i)
    (hperm : parcels.Perm children) :
    reconstructText parent parcels = .ok (.ofList (parent.contentText.toList ++
      children.flatMap fun c => c.contentText.toList)) := by
  have htotal : ∀ a ∈ parcels, ∃ k, parcelKey a = .ok k := by
    intro a ha
    obtain ⟨i, hi, rfl⟩ := List.mem_iff_getElem.mp (hperm.mem_iff.mp ha)
    exact ⟨_, parcelKey_eq (hindex i hi)⟩
  have hincreasing : children.Pairwise fun a b => ∀ k l, parcelKey a = .ok k →
      parcelKey b = .ok l → k < l := by
    rw [List.pairwise_iff_getElem]
    intro i j hi hj hij k l hk hl
    rw [parcelKey_eq (hindex i hi)] at hk
    rw [parcelKey_eq (hindex j hj)] at hl
    rw [← Except.ok.inj hk, ← Except.ok.inj hl]
    apply Prod.Lex.left
    exact_mod_cast hij
  obtain ⟨ordered, hsort⟩ := sortKeyed_total parcels htotal
  have hsame := sortKeyed_increasing hsort hincreasing hperm
  rw [reconstructText, hsort]
  show Except.ok (String.ofList (_ ++ ordered.flatMap _)) = _
  rw [← hsame, List.flatMap_map]

omit [PyCoerce] in
theorem reads_collect {s : JsonlMemoryStore} (atoms : List Atom)
    (h : ∀ a ∈ atoms, ∃ p, s.getAtom a.atomId = some p ∧ ReadBack a p) :
    ∃ found : List Atom, atoms.map (fun a => s.getAtom a.atomId) = found.map some ∧
      List.Forall₂ ReadBack atoms found := by
  induction atoms with
  | nil => exact ⟨[], rfl, List.Forall₂.nil⟩
  | cons a atoms ih =>
    obtain ⟨p, hp, hread⟩ := h a List.mem_cons_self
    obtain ⟨found, hfound, hall⟩ := ih (fun b hb => h b (List.mem_cons_of_mem a hb))
    refine ⟨p :: found, ?_, List.Forall₂.cons hread hall⟩
    rw [List.map_cons, List.map_cons, hp, hfound]

omit [PyCoerce] in
theorem bodies_of_reads {atoms found : List Atom} (h : List.Forall₂ ReadBack atoms found) :
    found.flatMap (fun c => c.contentText.toList) =
      (atoms.map fun c => c.contentText.toList).flatten := by
  induction h with
  | nil => rfl
  | cons hread hrest ih =>
    rw [List.flatMap_cons, ih, hread.content]
    rfl

theorem parcelIndex_of_reads {atoms found : List Atom} (h : List.Forall₂ ReadBack atoms found)
    (hindex : ∀ i (h : i < atoms.length), atoms[i].metadata.get? "parcel_index" = some (.int i))
    (i : Nat) (hi : i < found.length) : parcelIndex found[i] = .ok i := by
  have hlen : i < atoms.length := by
    rw [h.length_eq]
    exact hi
  have hread := h.get hlen hi
  rw [parcelIndex]
  have hfound : found[i].metadata.get? "parcel_index" = some (.int i) :=
    hread.index.trans (hindex i hlen)
  rw [hfound]
  rfl

end Reads

section Family

variable (settings : PromoteSettings) (d : Draft) (newAtomId : Nat → String)

/-- The parent and the parcels of a draft, cut at the threshold of the settings. -/
def familyOf : List Atom :=
  let family := makeParentAndParcels d (parcelThreshold settings) newAtomId
  family.1 :: family.2

theorem parcel_metadata (parentId atomId : String) (i count : Nat) (chunk : List Char) :
    (d.parcel parentId atomId i count chunk).metadata.get? "parcel_index" = some (.int i) := by
  show (Dict.ofList _).get? "parcel_index" = _
  rw [Dict.get?_ofList _ (by simp)]
  rfl

/-- The parent holds the first chunk, and the parcels the others in order. -/
theorem family_chunks :
    let family := makeParentAndParcels d (parcelThreshold settings) newAtomId
    family.1.contentText.toList :: family.2.map (fun c => c.contentText.toList) =
        splitOversizedText d.rawText.toList (parcelThreshold settings) ∧
      ∀ i (h : i < family.2.length),
        family.2[i].metadata.get? "parcel_index" = some (.int i) := by
  have hne := splitOversizedText_ne_nil d.rawText.toList _ (parcelThreshold_pos settings)
  unfold makeParentAndParcels
  generalize splitOversizedText d.rawText.toList (parcelThreshold settings) = chunks at hne ⊢
  cases chunks with
  | nil => exact absurd rfl hne
  | cons first others =>
    simp only [List.length_cons, Nat.add_sub_cancel, List.headD_cons, List.tail_cons]
    split_ifs with hcount
    · obtain rfl : others = [] := List.eq_nil_of_length_eq_zero hcount
      refine ⟨?_, fun i h => absurd h (by simp)⟩
      show [(String.ofList first).toList] = _
      rw [String.toList_ofList]
    · refine ⟨?_, ?_⟩
      · show (String.ofList first).toList :: _ = _
        rw [String.toList_ofList]
        congr 1
        apply List.ext_getElem (by simp)
        intro i hi hj
        rw [List.getElem_map, List.getElem_mapIdx]
        exact String.toList_ofList
      · intro i hi
        rw [List.getElem_mapIdx]
        exact parcel_metadata d _ _ _ _ _

theorem family_fits (a : Atom) (ha : a ∈ familyOf settings d newAtomId) :
    Fits settings.toMemorySettings a := by
  obtain ⟨hchunks, -⟩ := family_chunks settings d newAtomId
  have hparts := splitOversizedText_partitions d.rawText.toList _ (parcelThreshold_pos settings)
  apply capContent_fits
  rw [← String.length_toList]
  apply hparts.fits
  rw [← hchunks]
  exact List.mem_map_of_mem (f := fun c : Atom => c.contentText.toList) ha

variable [PyCoerce]

/-- Splitting ends with a partition that no put cuts, and what is read back gives the text. -/
theorem parcel_round_trip (out : Outside) (hd : Sound d) (hids : ∀ i, out.newAtomId i ≠ "")
    (hinj : Function.Injective out.newAtomId) (s : JsonlMemoryStore)
    (hs : s.settings = settings.toMemorySettings) :
    let cap := parcelThreshold settings
    let text := d.rawText.toList
    let family := makeParentAndParcels d cap out.newAtomId
    (∀ passes, text.length ≤ passes →
      splitLoop cap.toNat passes text = splitLoop cap.toNat text.length text) ∧
    Partitions text cap (splitOversizedText text cap) ∧
    (∀ a ∈ family.1 :: family.2, capContent s.settings a = a) ∧
    ∃ t parent children, putEach (family.1 :: family.2) s = .ok () t ∧
      t.getAtom family.1.atomId = some parent ∧
      family.2.map (fun c => t.getAtom c.atomId) = children.map some ∧
      ∀ parcels : List Atom, parcels.Perm children →
        reconstructText parent parcels = .ok d.rawText := by
  intro cap text family
  have hpos : 0 < cap := parcelThreshold_pos settings
  have hmade := parcels_make d hd cap out hids hinj
  obtain ⟨hchunks, hindex⟩ := family_chunks settings d out.newAtomId
  have hparts := splitOversizedText_partitions text cap hpos
  have hfit : ∀ a ∈ family.1 :: family.2, Fits s.settings a := by
    intro a ha
    rw [hs]
    exact family_fits settings d out.newAtomId a ha
  have hput : ∀ a ∈ family.1 :: family.2, Puttable a := by
    intro a ha
    rcases List.mem_cons.mp ha with rfl | ha
    · obtain ⟨body, metadata, hparent, -⟩ := hmade.parent
      rw [show family.1 = _ from hparent]
      exact hd.puttable (hids 0) body metadata
    · exact (hmade.each a ha).1.puttable
  have hnodup : ((family.1 :: family.2).map Atom.atomId).Nodup := by
    rw [List.map_cons, List.nodup_cons]
    refine ⟨?_, hmade.nodup⟩
    intro hmem
    obtain ⟨c, hc, heq⟩ := List.mem_map.mp hmem
    obtain ⟨-, i, hi⟩ := hmade.each c hc
    obtain ⟨body, metadata, hparent, -⟩ := hmade.parent
    have hzero : family.1.atomId = out.newAtomId 0 := by
      rw [show family.1 = _ from hparent]
      rfl
    have hsame : i + 1 = 0 := hinj (hi.symm.trans (heq.trans hzero))
    omega
  obtain ⟨t, hrun, hreads, -⟩ := putEach_reads (family.1 :: family.2) hput hnodup s hfit
  obtain ⟨parent, hparent, hparentRead⟩ := hreads family.1 List.mem_cons_self
  obtain ⟨children, hgot, hall⟩ :=
    reads_collect family.2 (fun c hc => hreads c (List.mem_cons_of_mem _ hc))
  refine ⟨?_, hparts, hfit, t, parent, children, hrun, hparent, hgot, ?_⟩
  · intro passes hpasses
    exact splitLoop_ends (by omega) text _ _ hpasses (le_refl _)
  · intro parcels hperm
    rw [reconstructText_ordered (parcelIndex_of_reads hall hindex) hperm, bodies_of_reads hall,
      hparentRead.content, ← List.flatten_cons, hchunks, hparts.whole]
    exact congrArg Except.ok String.ofList_toList

end Family

section Lines

attribute [local instance] basicCoerce

/-- A store without a cap, and parcels of three characters. -/
def uncapped : PromoteSettings := { defaultPromoteSettings with
  toMemorySettings := ⟨0, 4⟩
  parcelsEnabled := true
  parcelThresholdChars := 3 }

def numbered : Outside where
  newAtomId i := .ofList (List.replicate (i + 1) 'a')
  now := firstInstant
  later := firstInstant

theorem numbered_nonempty (i : Nat) : numbered.newAtomId i ≠ "" := by
  intro heq
  have hlen := congrArg String.length heq
  simp [numbered] at hlen

theorem numbered_injective : Function.Injective numbered.newAtomId := by
  intro i j heq
  have hlen := congrArg String.length heq
  simp [numbered] at hlen
  exact hlen

def twoLines : Draft where
  kind := "observation"
  rawText := "ab\ncdef"
  tStart := isoZ firstInstant
  momentId := "m"
  sourceBeatType := "user"
  baseMeta := .empty

/-- A text of two lines, put into an empty store. -/
theorem two_lines_round_trip :
    let family := makeParentAndParcels twoLines (parcelThreshold uncapped)
      numbered.newAtomId
    ∃ t parent children,
      putEach (family.1 :: family.2) ⟨⟨0, 4⟩, .empty, .empty, ⟨[], .empty⟩⟩ = .ok () t ∧
      t.getAtom family.1.atomId = some parent ∧
      family.2.map (fun c => t.getAtom c.atomId) = children.map some ∧
      ∀ parcels : List Atom, parcels.Perm children →
        reconstructText parent parcels = .ok "ab\ncdef" := by
  have hsound : Sound twoLines :=
    ⟨by decide, by decide, isoZ firstInstant, isoOr_isoZ firstInstant _, isoZ_ne_empty firstInstant⟩
  exact (parcel_round_trip uncapped twoLines numbered hsound numbered_nonempty numbered_injective
    ⟨⟨0, 4⟩, .empty, .empty, ⟨[], .empty⟩⟩ rfl).2.2.2

end Lines

end Elyra.Memory
