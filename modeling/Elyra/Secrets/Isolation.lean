import Elyra.Framework.Lines
import Elyra.Secrets.Store

namespace Elyra.Secrets

open Json SecretsStore

section Names

variable [CaseFold]

/-- An accepted name is the stripped text, and a safe file name. -/
theorem validate_ok {name key : String} (h : validateSecretName name = .ok key) :
    key = stripped name ∧ secretNameRe key.toList = true := by
  unfold validateSecretName at h
  dsimp only at h
  split_ifs at h with h1 h2 h3 h4
  cases h
  exact ⟨rfl, by simpa using h3⟩

/-- A name counts by its stripped text only. -/
theorem validate_congr {a b : String} (h : stripped a = stripped b) :
    validateSecretName a = validateSecretName b := by
  unfold validateSecretName
  rw [h]

/-- The temporary file's name is stripped already. -/
theorem stripped_tmpName {name key : String} (h : validateSecretName name = .ok key) :
    stripped (tmpName key) = tmpName key := by
  obtain ⟨-, hre⟩ := validate_ok h
  cases hcs : key.toList with
  | nil =>
    rw [hcs] at hre
    exact absurd hre (by decide)
  | cons c cs =>
    rw [hcs] at hre
    have hc : c.isAlphanum = true := by
      unfold secretNameRe at hre
      rw [Bool.and_eq_true] at hre
      exact hre.1
    have hchars : (tmpName key).toList = c :: ((cs ++ ['.', 't', 'm']) ++ ['p']) := by
      rw [tmpName, String.toList_append, hcs]
      simp
    rw [stripped, hchars, strip_eq_self c 'p' _ (isSpace_of_alphanum hc) (by decide), ← hchars,
      String.ofList_toList]

omit [CaseFold] in
theorem tmpName_ne (key : String) : tmpName key ≠ key := by
  intro h
  have hlen := congrArg (fun t : String => t.toList.length) h
  simp [tmpName] at hlen

end Names

namespace SecretsStore

/-- What a store says of one file name. -/
def fileMeta (s : SecretsStore) (key : String) : Option PublicEntry :=
  (s.entries.get? key).map (publicEntry key)

variable [CaseFold]

theorem getValue_eq {name key : String} (h : validateSecretName name = .ok key)
    (s : SecretsStore) : s.getValue name = s.fileValue key := by
  rw [getValue, h]

theorem getMeta_eq {name key : String} (h : validateSecretName name = .ok key)
    (s : SecretsStore) : s.getMeta name = s.fileMeta key := by
  rw [getMeta, h]
  rfl

/-- Value, grants and metadata of every other name are as they were. -/
def Undisturbed (key : String) (s t : SecretsStore) : Prop :=
  ∀ name, validateSecretName name ≠ .ok key →
    t.getValue name = s.getValue name ∧ t.getMeta name = s.getMeta name

theorem undisturbed_iff (key : String) (s t : SecretsStore) :
    Undisturbed key s t ↔ ∀ name other, validateSecretName name = .ok other → other ≠ key →
      t.fileValue other = s.fileValue other ∧ t.fileMeta other = s.fileMeta other := by
  constructor
  · intro h name other hname hne
    have hother := h name (by rw [hname]; exact fun heq => hne (Except.ok.inj heq))
    rw [getValue_eq hname, getValue_eq hname, getMeta_eq hname, getMeta_eq hname] at hother
    exact hother
  · intro h name hne
    cases hname : validateSecretName name with
    | error e => exact ⟨by rw [getValue, getValue, hname], by rw [getMeta, getMeta, hname]⟩
    | ok other =>
      rw [getValue_eq hname, getValue_eq hname, getMeta_eq hname, getMeta_eq hname]
      exact h name other hname fun heq => hne (by rw [hname, heq])

theorem Undisturbed.refl (key : String) (s : SecretsStore) : Undisturbed key s s :=
  fun _ _ => ⟨rfl, rfl⟩

end SecretsStore

/-- A written value reads back exactly when it holds no carriage return. -/
theorem valueText_written (value : String) (h : blank value = false) :
    valueText (encodeUtf8 (value.toList ++ ['\n'])) = some value ↔ '\r' ∉ value.toList := by
  have hne : value.toList ≠ [] := by
    intro hnil
    rw [blank, hnil] at h
    exact absurd h (by decide)
  rw [valueText, encodeUtf8_eq, decodeUtf8_utf8Encode, Option.bind_some]
  dsimp only
  constructor
  · intro hread hmem
    have hbody : ∀ text : List Char, '\r' ∉ text →
        '\r' ∉ (if text.getLast? = some '\n' then text.dropLast else text) := by
      intro text htext
      split_ifs
      · exact fun hm => htext (List.dropLast_subset text hm)
      · exact htext
    have hno := hbody _ (not_mem_universalNewlines (value.toList ++ ['\n']))
    split_ifs at hread
    all_goals
      have heq := congrArg String.toList (Option.some.inj hread)
      rw [String.toList_ofList] at heq
      simp_all
  · intro hno
    have hsame : universalNewlines (value.toList ++ ['\n']) = value.toList ++ ['\n'] := by
      apply universalNewlines_eq_self
      simpa using hno
    rw [hsame, List.getLast?_concat, if_pos rfl, List.dropLast_concat, if_neg hne,
      String.ofList_toList]

section Isolation

variable [CaseFold]

/-- A value that a `set_secret` accepts. -/
def AcceptedValue (value : String) (grants : Option Json) : Prop :=
  blank value = false ∧ ∃ given, grants.mapM normalizeGrants = .ok given

/-- What a call on a valid name is to do: the other names are undisturbed, a value that was set is
there and a deleted secret is gone. -/
def Separate (s : SecretsStore) (u : SecretUse) : Prop :=
  ∀ key, validateSecretName u.call.name = .ok key →
    Undisturbed key s (u.perform s) ∧
    (∀ name value grants managedBy, u.call = .set name value grants managedBy →
      AcceptedValue value grants → (u.perform s).getValue name = some value) ∧
    ∀ name, u.call = .delete name →
      (u.perform s).getValue name = none ∧ (u.perform s).getMeta name = none

/-- The temporary name belongs to no secret; a value has no carriage return; where `meta.json`
cannot be read, a set finds no other entry and a delete no entry. -/
def Apart (s : SecretsStore) (u : SecretUse) : Prop :=
  ∀ key, validateSecretName u.call.name = .ok key →
    match u.call with
    | .set _ value grants _ => AcceptedValue value grants →
        '\r' ∉ value.toList ∧ s.getValue (tmpName key) = none ∧
        (u.readFails = true → ∀ other, validateSecretName other ≠ .ok key → s.getMeta other = none)
    | .delete _ => s.getValue (tmpName key) = none ∧ (u.readFails = true → s.fileMeta key = none)
    | .setGrants _ _ | .touch _ => True

omit [CaseFold] in
/-- Files change only under the name and its temporary name. -/
theorem fileValue_writeValue (s : SecretsStore) (key value other : String) (h : other ≠ key) :
    (s.writeValue key value).fileValue other =
      if other = tmpName key then none else s.fileValue other := by
  show (((s.values.pop (tmpName key)).set key _).get? other).bind valueText = _
  rw [Dict.get?_set_ne _ _ (Ne.symm h), Dict.get?_pop]
  by_cases htmp : other = tmpName key
  · rw [if_pos htmp.symm, if_pos htmp]
    rfl
  · rw [if_neg (Ne.symm htmp), if_neg htmp]
    rfl

/-- Taking the temporary file away disturbs no one exactly when it is no secret's. -/
theorem tmp_undisturbed_iff {name key : String} (hname : validateSecretName name = .ok key)
    (s : SecretsStore) :
    (∀ name other, validateSecretName name = .ok other → other ≠ key →
      (if other = tmpName key then none else s.fileValue other) = s.fileValue other) ↔
    s.getValue (tmpName key) = none := by
  have hstripped := stripped_tmpName hname
  constructor
  · intro h
    cases htmp : validateSecretName (tmpName key) with
    | error e => rw [getValue, htmp]
    | ok other =>
      have hother : other = tmpName key := by
        rw [(validate_ok htmp).1, hstripped]
      have hsame := h (tmpName key) other htmp (by rw [hother]; exact tmpName_ne key)
      rw [if_pos hother] at hsame
      rw [getValue_eq htmp, ← hsame]
  · intro h name other hother _
    split_ifs with htmp
    · have hsame : stripped (tmpName key) = stripped name := by
        rw [hstripped, ← htmp, (validate_ok hother).1]
      rw [getValue_eq ((validate_congr hsame).trans hother)] at h
      exact h.symm
    · rfl

/-- Rewriting the document from what was read disturbs no one exactly when the read succeeded or
there is no other entry. -/
theorem loadMeta_undisturbed_iff (key : String) (s : SecretsStore) (readFails : Bool) :
    (∀ name other, validateSecretName name = .ok other → other ≠ key →
      ((s.loadMeta readFails).get? other).map (publicEntry other) = s.fileMeta other) ↔
    (readFails = true → ∀ other, validateSecretName other ≠ .ok key → s.getMeta other = none) := by
  cases readFails with
  | false => exact ⟨fun _ h => absurd h (by decide), fun _ _ _ _ _ => rfl⟩
  | true =>
    constructor
    · intro h _ name hne
      cases hname : validateSecretName name with
      | error e => rw [getMeta, hname]
      | ok other =>
        rw [getMeta_eq hname]
        exact (h name other hname fun heq => hne (by rw [hname, heq])).symm
    · intro h name other hname hne
      have hnone := h rfl name (by rw [hname]; exact fun heq => hne (Except.ok.inj heq))
      rw [getMeta_eq hname] at hnone
      exact hnone.symm

theorem plannedEntry_ok {now name value managedBy key : String} {readFails : Bool}
    {grants : Option Json} {s : SecretsStore} (hname : validateSecretName name = .ok key)
    (h : AcceptedValue value grants) :
    ∃ entry, s.plannedEntry now readFails name value grants managedBy = .ok (key, entry) := by
  obtain ⟨hvalue, given, hgrants⟩ := h
  unfold plannedEntry
  rw [hname, hvalue, hgrants]
  exact ⟨_, rfl⟩

theorem plannedEntry_error {now name value managedBy key : String} {readFails : Bool}
    {grants : Option Json} {s : SecretsStore} (hname : validateSecretName name = .ok key)
    (h : ¬AcceptedValue value grants) :
    ∃ err, s.plannedEntry now readFails name value grants managedBy = .error err := by
  unfold plannedEntry
  rw [hname]
  cases hvalue : blank value with
  | true => exact ⟨_, rfl⟩
  | false =>
    cases hgrants : grants.mapM normalizeGrants with
    | error err => exact ⟨err, rfl⟩
    | ok given => exact absurd ⟨hvalue, given, hgrants⟩ h

/-- A `set_secret` that goes through. -/
theorem perform_set {now name value managedBy key : String} {readFails : Bool}
    {grants : Option Json} (s : SecretsStore) (hname : validateSecretName name = .ok key)
    (h : AcceptedValue value grants) :
    ∃ entry, SecretUse.perform s ⟨.set name value grants managedBy, now, readFails⟩ =
      (s.writeValue key value).writeMeta ((s.loadMeta readFails).set key entry) := by
  obtain ⟨entry, hplan⟩ := @plannedEntry_ok _ now name value managedBy key readFails grants s
    hname h
  refine ⟨entry, ?_⟩
  show ((s.setSecret now readFails name value grants managedBy).map Prod.snd).toOption.getD s = _
  rw [setSecret, hplan]
  rfl

theorem perform_set_refused {now name value managedBy key : String} {readFails : Bool}
    {grants : Option Json} (s : SecretsStore) (hname : validateSecretName name = .ok key)
    (h : ¬AcceptedValue value grants) :
    SecretUse.perform s ⟨.set name value grants managedBy, now, readFails⟩ = s := by
  obtain ⟨err, hplan⟩ := @plannedEntry_error _ now name value managedBy key readFails grants s
    hname h
  show ((s.setSecret now readFails name value grants managedBy).map Prod.snd).toOption.getD s = _
  rw [setSecret, hplan]
  rfl

theorem separate_set_iff {now name value managedBy key : String} {readFails : Bool}
    {grants : Option Json} (s : SecretsStore) (hname : validateSecretName name = .ok key)
    (h : AcceptedValue value grants) :
    Separate s ⟨.set name value grants managedBy, now, readFails⟩ ↔
      '\r' ∉ value.toList ∧ s.getValue (tmpName key) = none ∧
        (readFails = true → ∀ other, validateSecretName other ≠ .ok key → s.getMeta other = none) := by
  obtain ⟨entry, hrun⟩ := @perform_set _ now name value managedBy key readFails grants s
    hname h
  have hvalue : (SecretUse.perform s ⟨.set name value grants managedBy, now, readFails⟩).getValue
      name = some value ↔ '\r' ∉ value.toList := by
    rw [hrun, getValue_eq hname, ← valueText_written value h.1]
    show (((s.values.pop (tmpName key)).set key _).get? key).bind valueText = some value ↔ _
    rw [Dict.get?_set_self, Option.bind_some]
  have hothers : Undisturbed key s
      (SecretUse.perform s ⟨.set name value grants managedBy, now, readFails⟩) ↔
        s.getValue (tmpName key) = none ∧ (readFails = true →
          ∀ other, validateSecretName other ≠ .ok key → s.getMeta other = none) := by
    rw [undisturbed_iff, hrun, ← tmp_undisturbed_iff hname s,
      ← loadMeta_undisturbed_iff key s readFails]
    have hmeta (other : String) (hne : other ≠ key) :
        ((s.writeValue key value).writeMeta ((s.loadMeta readFails).set key entry)).fileMeta other =
          ((s.loadMeta readFails).get? other).map (publicEntry other) := by
      show (((s.loadMeta readFails).set key entry).get? other).map _ = _
      rw [Dict.get?_set_ne _ _ (Ne.symm hne)]
    constructor
    · intro hall
      refine ⟨?_, ?_⟩
      · intro other k hk hne
        rw [← fileValue_writeValue s key value k hne]
        exact (hall other k hk hne).1
      · intro other k hk hne
        rw [← hmeta k hne]
        exact (hall other k hk hne).2
    · intro ⟨hfiles, hentries⟩ other k hk hne
      refine ⟨?_, ?_⟩
      · exact (fileValue_writeValue s key value k hne).trans (hfiles other k hk hne)
      · rw [hmeta k hne]
        exact hentries other k hk hne
  rw [← hvalue, ← hothers]
  constructor
  · intro hsep
    obtain ⟨hundisturbed, hset, -⟩ := hsep key hname
    exact ⟨hset name value grants managedBy rfl h, hundisturbed⟩
  · intro ⟨hset, hundisturbed⟩ k hk
    have hkey : k = key := Except.ok.inj (hk.symm.trans hname)
    refine ⟨?_, ?_, (fun _ hcall => nomatch hcall)⟩
    · rw [hkey]
      exact hundisturbed
    · intro name' value' grants' managedBy' hcall _
      cases hcall
      exact hset

theorem separate_delete_iff {now name key : String} {readFails : Bool} (s : SecretsStore)
    (hname : validateSecretName name = .ok key) :
    Separate s ⟨.delete name, now, readFails⟩ ↔
      s.getValue (tmpName key) = none ∧ (readFails = true → s.fileMeta key = none) := by
  let entries := s.loadMeta readFails
  let unlinked : SecretsStore := { s with values := (s.values.pop key).pop (tmpName key) }
  have hrun : SecretUse.perform s ⟨.delete name, now, readFails⟩ =
      if key ∈ entries.keys then unlinked.writeMeta (entries.pop key) else unlinked := by
    show ((s.deleteSecret readFails name).map Prod.snd).toOption.getD s = _
    rw [deleteSecret, hname]
    rfl
  have hvalues (other : String) :
      (SecretUse.perform s ⟨.delete name, now, readFails⟩).fileValue other =
        if other = key then none else if other = tmpName key then none else s.fileValue other := by
    have hfiles : (SecretUse.perform s ⟨.delete name, now, readFails⟩).values =
        (s.values.pop key).pop (tmpName key) := by
      rw [hrun]
      split_ifs <;> rfl
    rw [fileValue, hfiles, Dict.get?_pop, Dict.get?_pop]
    by_cases hkey : other = key
    · rw [if_pos hkey, if_pos hkey.symm]
      split_ifs <;> rfl
    · rw [if_neg hkey, if_neg (Ne.symm hkey)]
      by_cases htmp : other = tmpName key
      · rw [if_pos htmp, if_pos htmp.symm]
        rfl
      · rw [if_neg htmp, if_neg (Ne.symm htmp)]
        rfl
  have hentry (other : String) :
      (SecretUse.perform s ⟨.delete name, now, readFails⟩).fileMeta other =
        if other = key ∧ key ∈ entries.keys then none else s.fileMeta other := by
    rw [hrun]
    by_cases hmem : key ∈ entries.keys
    · have hread : entries = s.entries := by
        cases readFails with
        | true => exact absurd hmem (by simp [entries, loadMeta])
        | false => rfl
      rw [if_pos hmem]
      show ((entries.pop key).get? other).map _ = _
      rw [Dict.get?_pop, hread]
      by_cases hkey : other = key
      · rw [if_pos hkey.symm, if_pos ⟨hkey, by rw [← hread]; exact hmem⟩]
        rfl
      · rw [if_neg (Ne.symm hkey), if_neg fun h => hkey h.1]
        rfl
    · rw [if_neg hmem, if_neg fun h => hmem h.2]
      rfl
  have hothers : Undisturbed key s (SecretUse.perform s ⟨.delete name, now, readFails⟩) ↔
      s.getValue (tmpName key) = none := by
    rw [undisturbed_iff, ← tmp_undisturbed_iff hname s]
    constructor
    · intro hall other k hk hne
      have hsame := (hall other k hk hne).1
      rw [hvalues, if_neg hne] at hsame
      exact hsame
    · intro hfiles other k hk hne
      refine ⟨(hvalues k).trans ?_, (hentry k).trans (if_neg fun h => hne h.1)⟩
      rw [if_neg hne]
      exact hfiles other k hk hne
  have hgone : (SecretUse.perform s ⟨.delete name, now, readFails⟩).getMeta name = none ↔
      (readFails = true → s.fileMeta key = none) := by
    rw [getMeta_eq hname, hentry]
    cases readFails with
    | true =>
      have hmem : key ∉ entries.keys := by simp [entries, loadMeta]
      rw [if_neg fun h => hmem h.2]
      exact ⟨fun h _ => h, fun h => h rfl⟩
    | false =>
      refine ⟨fun _ h => absurd h (by decide), fun _ => ?_⟩
      split_ifs with hmem
      · rfl
      · have hget : s.entries.get? key = none :=
          (Dict.not_mem_keys s.entries key).mp fun h => hmem ⟨rfl, h⟩
        rw [fileMeta, hget]
        rfl
  rw [← hothers, ← hgone]
  constructor
  · intro hsep
    obtain ⟨hundisturbed, -, hdelete⟩ := hsep key hname
    exact ⟨hundisturbed, (hdelete name rfl).2⟩
  · intro ⟨hundisturbed, hmeta⟩ k hk
    have hkey : k = key := Except.ok.inj (hk.symm.trans hname)
    refine ⟨?_, (fun _ _ _ _ hcall => nomatch hcall), ?_⟩
    · rw [hkey]
      exact hundisturbed
    · intro name' hcall
      cases hcall
      refine ⟨?_, hmeta⟩
      rw [getValue_eq hname, hvalues, if_pos rfl]

/-- A call that only rewrites the entry it read. -/
theorem separate_of_entry {s : SecretsStore} {u : SecretUse} {key : String}
    (hname : validateSecretName u.call.name = .ok key)
    (hset : ∀ name value grants managedBy, u.call ≠ .set name value grants managedBy)
    (hdelete : ∀ name, u.call ≠ .delete name)
    (hrun : u.perform s = s ∨ ∃ entry old, (s.loadMeta u.readFails).get? key = some old ∧
      u.perform s = s.writeMeta ((s.loadMeta u.readFails).set key entry)) : Separate s u := by
  intro k hk
  have hkey : k = key := Except.ok.inj (hk.symm.trans hname)
  refine ⟨?_, fun _ _ _ _ hcall => absurd hcall (hset _ _ _ _),
    fun _ hcall => absurd hcall (hdelete _)⟩
  rw [hkey]
  obtain hstay | ⟨entry, old, hold, hwrite⟩ := hrun
  · rw [hstay]
    exact Undisturbed.refl key s
  · have hread : s.loadMeta u.readFails = s.entries := by
      cases hfails : u.readFails with
      | true =>
        rw [hfails] at hold
        exact nomatch hold
      | false => rfl
    rw [undisturbed_iff, hwrite, hread]
    intro name other hother hne
    refine ⟨rfl, ?_⟩
    show ((s.entries.set key entry).get? other).map _ = _
    rw [Dict.get?_set_ne _ _ (Ne.symm hne)]
    rfl

theorem separate_setGrants (s : SecretsStore) (name now : String) (grants : Json)
    (readFails : Bool) : Separate s ⟨.setGrants name grants, now, readFails⟩ := by
  intro key hname
  apply separate_of_entry hname _ _ _ key hname
  · exact fun _ _ _ _ h => nomatch h
  · exact fun _ h => nomatch h
  · show ((s.setGrants now readFails name grants).map Prod.snd).toOption.getD s = s ∨ _
    have hname' : validateSecretName name = .ok key := hname
    unfold setGrants SecretUse.perform SecretsStore.setGrants
    dsimp only
    rw [hname']
    cases normalizeGrants grants with
    | error err => exact .inl rfl
    | ok given =>
      cases hold : (s.loadMeta readFails).get? key with
      | none => exact .inl (by simp [bind, Except.bind, hold]; rfl)
      | some old => exact .inr ⟨_, old, rfl, by simp [bind, Except.bind, hold]; rfl⟩

theorem separate_touch (s : SecretsStore) (name now : String) (readFails : Bool) :
    Separate s ⟨.touch name, now, readFails⟩ := by
  intro key hname
  apply separate_of_entry hname _ _ _ key hname
  · exact fun _ _ _ _ h => nomatch h
  · exact fun _ h => nomatch h
  · show s.touchLastUsed now readFails name = s ∨
      ∃ entry old, (s.loadMeta readFails).get? key = some old ∧
        s.touchLastUsed now readFails name = s.writeMeta ((s.loadMeta readFails).set key entry)
    have hname' : validateSecretName name = .ok key := hname
    rw [touchLastUsed, hname']
    dsimp only
    cases hold : (s.loadMeta readFails).get? key with
    | none => exact .inl rfl
    | some old => exact .inr ⟨_, old, rfl, rfl⟩

theorem separate_iff (s : SecretsStore) (u : SecretUse) : Separate s u ↔ Apart s u := by
  obtain ⟨call, now, readFails⟩ := u
  cases call with
  | set name value grants managedBy =>
    constructor
    · intro hsep key hname haccepted
      exact (separate_set_iff s hname haccepted).mp hsep
    · intro hapart key hname
      by_cases haccepted : AcceptedValue value grants
      · exact (separate_set_iff s hname haccepted).mpr (hapart key hname haccepted) key hname
      · have hname' : validateSecretName name = .ok key := hname
        rw [perform_set_refused s hname' haccepted]
        refine ⟨Undisturbed.refl key s, ?_, (fun _ hcall => nomatch hcall)⟩
        intro _ _ _ _ hcall haccepted'
        cases hcall
        exact absurd haccepted' haccepted
  | delete name =>
    constructor
    · intro hsep key hname
      exact (separate_delete_iff s hname).mp hsep
    · intro hapart key hname
      exact (separate_delete_iff s hname).mpr (hapart key hname) key hname
  | setGrants name grants =>
    exact ⟨fun _ _ _ => trivial, fun _ => separate_setGrants s name now grants readFails⟩
  | touch name => exact ⟨fun _ _ _ => trivial, fun _ => separate_touch s name now readFails⟩

/-- In every state of every run a call keeps the secrets apart exactly when the temporary name, the
value and the read allow it. -/
theorem secrets_apart_iff (uses : List SecretUse) (u : SecretUse) :
    Separate (run SecretUse.perform fresh uses) u ↔ Apart (run SecretUse.perform fresh uses) u :=
  separate_iff _ u

end Isolation

section Sample

/-- Case folding of the ASCII letters. -/
@[reducible] def asciiFold : CaseFold := ⟨String.toLower⟩

def plainSet (name value : String) : SecretUse := ⟨.set name value none "user", "t", false⟩

/-- Storing `gh_token` takes the file of the secret `gh_token.tmp` away. -/
theorem set_removes_tmp_secret :
    ¬ ∀ (_ : CaseFold) (uses : List SecretUse) (u : SecretUse),
      Separate (run SecretUse.perform fresh uses) u := by
  intro h
  have hsep := h asciiFold [plainSet "gh_token.tmp" "x"] (plainSet "gh_token" "y") "gh_token"
    (by decide +kernel)
  have hvalue := (hsep.1 "gh_token.tmp" (by decide +kernel)).1
  exact absurd hvalue (by decide +kernel)

end Sample
end Elyra.Secrets
