import Elyra.Skills.Packages

namespace Elyra.Skills

open Llm (PyText PyChar)
open Secrets (CaseFold stripped)

section Names

theorem plain_of_nameChar {c : Char} (h : Tools.nameChar c = true ∨ c = '-') :
    isSpace c = false ∧ quote c = false := by
  have hcases : c.isAlphanum = true ∨ c ∈ ['_', 'İ', 'ı', 'ſ', 'K'] ∨ c = '-' := by
    obtain h | h := h
    · rw [Tools.nameChar, Bool.or_eq_true, decide_eq_true_eq] at h
      exact h.imp_right .inl
    · exact .inr (.inr h)
  obtain halnum | hother := hcases
  · refine ⟨isSpace_of_alphanum halnum, ?_⟩
    cases hquote : quote c with
    | false => rfl
    | true =>
      rw [quote, Bool.or_eq_true, decide_eq_true_eq, decide_eq_true_eq] at hquote
      obtain rfl | rfl := hquote <;> exact absurd halnum (by decide)
  · have hlisted : ∀ c ∈ ['_', 'İ', 'ı', 'ſ', 'K', '-'], isSpace c = false ∧ quote c = false := by
      decide
    refine hlisted c ?_
    obtain hmem | rfl := hother
    · exact List.mem_append_left ['-'] hmem
    · decide

/-- The characters of a valid name. -/
theorem chars_of_valid {name : String} (h : isValidSkillName name = true) :
    (stripped name).toList ≠ [] ∧
      ∀ c ∈ (stripped name).toList, Tools.nameChar c = true ∨ c = '-' := by
  have hlist : (stripped name).toList = strip name.toList := String.toList_ofList
  rw [isValidSkillName, Tools.isValidToolName] at h
  rw [hlist]
  cases hstrip : strip name.toList with
  | nil =>
    rw [hstrip] at h
    cases h
  | cons c cs =>
    rw [hstrip] at h
    obtain ⟨hc, hcs⟩ := (Bool.and_eq_true _ _).mp h
    refine ⟨List.cons_ne_nil c cs, List.forall_mem_cons.mpr ⟨.inl hc, ?_⟩⟩
    intro d hd
    have hmem := List.all_eq_true.mp hcs d hd
    rwa [Bool.or_eq_true, decide_eq_true_eq] at hmem

theorem plainName_of_valid {name : String} (h : isValidSkillName name = true) :
    PlainName (stripped name).toList := by
  obtain ⟨hne, hchars⟩ := chars_of_valid h
  exact ⟨hne, fun c hc => (plain_of_nameChar (hchars c hc)).1,
    fun c hc => (plain_of_nameChar (hchars c hc)).2⟩

theorem hidden_of_valid {name : String} (h : isValidSkillName name = true) :
    hidden (stripped name) = false := by
  obtain ⟨-, hchars⟩ := chars_of_valid h
  refine decide_eq_false fun hdot => ?_
  have hmem : '.' ∈ (stripped name).toList := List.mem_of_mem_head? hdot
  exact absurd (hchars '.' hmem) (by decide)

theorem stripped_idem (name : String) : stripped (stripped name) = stripped name := by
  have hlist : (stripped name).toList = strip name.toList := String.toList_ofList
  rw [stripped, hlist]
  exact congrArg String.ofList (stripBy_idem name.toList)

theorem valid_stripped {name : String} (h : isValidSkillName name = true) :
    isValidSkillName (stripped name) = true := by
  have hlist : (stripped name).toList = strip name.toList := String.toList_ofList
  have hidem : strip (strip name.toList) = strip name.toList := stripBy_idem name.toList
  rw [isValidSkillName, Tools.isValidToolName] at h ⊢
  rwa [hlist, hidem]

end Names

section Calls

variable {home home' : SkillsHome}

/-- A name that the tools take. -/
theorem nameArg_ok {raw name : String} (h : nameArg (some (.text raw)) = .ok name) :
    name = stripped raw ∧ isValidSkillName raw = true := by
  rw [nameArg] at h
  split_ifs at h with hblank hvalid
  exact ⟨(Except.ok.inj h).symm, hvalid⟩

theorem encoded_ok {text : PyText} {cs : List Char} (h : encoded text = .ok cs) :
    text.encodable = true ∧ cs = text.shown := by
  rw [encoded] at h
  split_ifs at h with hencodable
  exact ⟨hencodable, (Except.ok.inj h).symm⟩

/-- A draft that is written holds the text. -/
theorem writeSkillDraft_ok {name : String} {content : List Char}
    {failure : Option (String × SkillsHome)}
    (h : writeSkillDraft name content failure home = .ok (none, home')) :
    home'.localDirs = home.localDirs ∧
      home'.drafts.get? (stripped name) = some (some (encodeUtf8 content)) := by
  unfold writeSkillDraft at h
  split_ifs at h with hvalid hsize
  · cases h
  · cases h
  · cases failure with
    | some f => cases h
    | none =>
      cases hshape : validateSkillPackage (some (encodeUtf8 content)) with
      | error e =>
        rw [hshape] at h
        cases h
      | ok shape =>
        rw [hshape] at h
        cases h
        exact ⟨rfl, Dict.get?_set_self _ _ _⟩

theorem installText_ok {name : String} {description body : PyText}
    {failure : Option (String × SkillsHome)}
    (h : installText name description body failure home = .ok (none, home')) :
    description.encodable = true ∧ body.encodable = true ∧ home'.localDirs = home.localDirs ∧
      home'.drafts.get? (stripped name) = some (some (encodeUtf8
        (assembleSkillMd name.toList description.shown body.shown))) := by
  unfold installText at h
  cases hbody : encoded body with
  | error e =>
    rw [hbody] at h
    cases h
  | ok b =>
    obtain ⟨hbodyEncodes, rfl⟩ := encoded_ok hbody
    rw [hbody] at h
    dsimp only at h
    split_ifs at h with hsize
    · cases h
    · cases hdescription : encoded description with
      | error e =>
        rw [hdescription] at h
        cases h
      | ok d =>
        obtain ⟨hdescriptionEncodes, rfl⟩ := encoded_ok hdescription
        rw [hdescription] at h
        dsimp only at h
        split_ifs at h with hall
        · cases h
        · exact ⟨hdescriptionEncodes, hbodyEncodes, writeSkillDraft_ok h⟩

/-- What an installation that is done has written. -/
theorem installSkillDraft_ok {raw : String} {description body : PyText}
    {failure : Option (String × SkillsHome)}
    (h : installSkillDraft ⟨some (.text raw), some (.text description), some (.text body), false⟩
      failure home = .ok (none, home')) :
    isValidSkillName raw = true ∧ description.encodable = true ∧ body.encodable = true ∧
      home'.localDirs = home.localDirs ∧
      home'.drafts.get? (stripped raw) = some (some (encodeUtf8
        (assembleSkillMd (stripped raw).toList description.shown body.shown))) := by
  unfold installSkillDraft at h
  cases hname : nameArg (some (.text raw)) with
  | error reason =>
    rw [hname] at h
    cases h
  | ok name =>
    rw [hname] at h
    obtain ⟨rfl, hvalid⟩ := nameArg_ok hname
    obtain ⟨hdescription, hbody, hdirs, hdraft⟩ := installText_ok h
    rw [stripped_idem] at hdraft
    exact ⟨hvalid, hdescription, hbody, hdirs, hdraft⟩

variable [CaseFold]

/-- What a promotion that is done has put in place. -/
theorem promoteSkill_ok {raw : String} {bundled : Dict String Package}
    {swap : Except (String × SkillsHome) Bool} {skillMd : Option ByteArray}
    (hdraft : home.drafts.get? (stripped raw) = some skillMd)
    (h : promoteSkill ⟨some (.text raw), none, none, false⟩ bundled swap home =
      .ok (none, home')) :
    bundledSkillNameExists bundled (stripped raw) = false ∧
      home'.localDirs = home.localDirs.set (destination home.localDirs (stripped raw))
        ⟨true, skillMd⟩ := by
  unfold promoteSkill at h
  cases hname : nameArg (some (.text raw)) with
  | error reason =>
    rw [hname] at h
    cases h
  | ok name =>
    obtain ⟨rfl, hvalid⟩ := nameArg_ok hname
    rw [hname] at h
    dsimp only at h
    rw [if_neg Bool.false_ne_true] at h
    have hstripped : ¬(!isValidSkillName (stripped raw)) = true := by
      rw [valid_stripped hvalid]
      exact Bool.false_ne_true
    unfold promoteDraftSkill at h
    rw [if_neg hstripped, stripped_idem] at h
    dsimp only at h
    rw [hdraft] at h
    dsimp only at h
    cases hshape : validateSkillPackage skillMd with
    | error e =>
      rw [hshape] at h
      cases h
    | ok shape =>
      rw [hshape] at h
      cases shape with
      | some reason => cases h
      | none =>
        dsimp only at h
        split_ifs at h with hexists
        · cases h
        · cases swap with
          | error f => cases h
          | ok removed =>
            cases h
            exact ⟨eq_false_of_ne_true hexists, rfl⟩

end Calls

section Listings

/-- What is in the catalog under a name when the package at `dest` is in place. -/
def Listable (dirs : Dict String Package) (dest name : String) : Prop :=
  isValidSkillName name = true ∧ hidden name = false ∧
    (name = dest ∨ ∃ p, dirs.get? name = some p ∧ p.isDir = true ∧
      (p.skillMd.bind readText).isSome)

theorem scanPackage_isSome {source : Source} {dir : String} {p : Package} :
    (scanPackage source dir p).isSome ↔ p.isDir = true ∧ hidden dir = false ∧
      isValidSkillName dir = true ∧ (p.skillMd.bind readText).isSome := by
  rw [scanPackage]
  split_ifs with hdir
  · rw [Bool.and_eq_true, Bool.and_eq_true, Bool.not_eq_true'] at hdir
    rw [loadSkillMeta, Option.isSome_map]
    exact ⟨fun h => ⟨hdir.1.1, hdir.1.2, hdir.2, h⟩, fun h => h.2.2.2⟩
  · refine iff_of_false Bool.false_ne_true ?_
    rintro ⟨h1, h2, h3, -⟩
    rw [h1, h2, h3] at hdir
    exact hdir rfl

theorem listed_set_isSome {dirs : Dict String Package} {dest name : String}
    {skillMd : Option ByteArray} (hread : (skillMd.bind readText).isSome) :
    (listed (dirs.set dest ⟨true, skillMd⟩) name).isSome ↔ Listable dirs dest name := by
  rw [listed, Listable]
  by_cases hname : name = dest
  · rw [hname, Dict.get?_set_self, Option.bind_some, scanPackage_isSome]
    exact ⟨fun h => ⟨h.2.2.1, h.2.1, .inl rfl⟩, fun h => ⟨rfl, h.2.1, h.1, hread⟩⟩
  · rw [Dict.get?_set_ne _ _ (Ne.symm hname)]
    constructor
    · intro h
      obtain ⟨m, hm⟩ := Option.isSome_iff_exists.mp h
      obtain ⟨p, hp, hscan⟩ := Option.bind_eq_some_iff.mp hm
      have hsome := scanPackage_isSome.mp (by rw [hscan]; rfl)
      exact ⟨hsome.2.2.1, hsome.2.1, .inr ⟨p, hp, hsome.1, hsome.2.2.2⟩⟩
    · rintro ⟨hvalid, hhidden, hdest | ⟨p, hp, hdir, hsome⟩⟩
      · exact absurd hdest hname
      · rw [hp]
        exact scanPackage_isSome.mpr ⟨hdir, hhidden, hvalid, hsome⟩

end Listings

section RoundTrip

variable [CaseFold]

/-- The catalog lists the name with the stripped description, and the text it loads reads as the
fields and the body that were given. -/
structure RoundTrips (bundled : Dict String Package) (home : SkillsHome) (name : String)
    (description body : List Char) : Prop where
  listed : ∃ m, (reload bundled home.localDirs).get? (normalizeSkillName name) = some m ∧
    m.name = name ∧ m.description = strip description
  loaded : ∃ m, load (reload bundled home.localDirs) bundled home.localDirs name = some m ∧
    Reads m.body name.toList (strip description) (body.dropWhile isSpace)

/-- The package that the catalog will show under the name is the one promoted, with a plain
description and body, or one of that very name that is there already and reads as they do. -/
def Shown (dirs : Dict String Package) (name : String) (description body : List Char) : Prop :=
  let dest := destination dirs name
  (∀ other, Listable dirs dest other → normalizeSkillName other = normalizeSkillName name →
    other ≤ name) ∧
  (dest = name ∧ Plain description body ∨
    dest ≠ name ∧ ∃ p text, dirs.get? name = some p ∧ p.isDir = true ∧
      p.skillMd.bind readText = some text ∧
      Reads text name.toList (strip description) (body.dropWhile isSpace))

omit [CaseFold] in
theorem describe_of_reads {text name description body : List Char}
    (h : Reads text name description body) (hne : description ≠ [])
    (hstrip : strip description = description) : describe text = description := by
  have hfield : field (parseFrontmatter text) descriptionKey = description := by
    rw [field, Dict.get?, h.1]
    rfl
  rw [describe, hfield, hstrip, if_neg hne]

omit [CaseFold] in
theorem readText_encoded (cs : List Char) :
    readText (encodeUtf8 cs) = some (universalNewlines cs) := by
  rw [readText, show decodeUtf8 (encodeUtf8 cs) = some cs from decodeUtf8_utf8Encode cs]
  rfl

omit [CaseFold] in
theorem strip_shown_ne_nil {description : PyText}
    (h : ∃ c ∈ description, PyText.blankChar c = false) (hencodes : description.encodable = true) :
    strip description.shown ≠ [] := by
  intro hnil
  have hall : ∀ x ∈ description.shown, isSpace x = true := all_of_stripBy_eq_nil hnil
  obtain ⟨c, hc, hblank⟩ := h
  cases c with
  | scalar d =>
    have hspace := hall d (List.mem_map.mpr ⟨.scalar d, hc, rfl⟩)
    rw [PyText.blankChar, hspace] at hblank
    cases hblank
  | surrogate n => exact absurd (List.all_eq_true.mp hencodes _ hc) Bool.false_ne_true

/-- A skill that the catalog shows under its own name. -/
theorem roundTrips_of_shown {bundled : Dict String Package} {home : SkillsHome} {name : String}
    {description body text : List Char} {p : Package} (hp : home.localDirs.get? name = some p)
    (hlisted : (listed home.localDirs name).isSome) (htop : Topmost home.localDirs name)
    (htext : p.skillMd.bind readText = some text) (hne : strip description ≠ [])
    (hreads : Reads text name.toList (strip description) (body.dropWhile isSpace)) :
    RoundTrips bundled home name description body := by
  obtain ⟨m, hm⟩ := Option.isSome_iff_exists.mp hlisted
  have hget : (reload bundled home.localDirs).get? (normalizeSkillName name) = some m :=
    get?_reload hm htop
  obtain ⟨hname, hpackage, hsource⟩ := listed_package hm
  have hdescribe := describe_of_reads hreads hne (stripBy_idem description)
  have hscan := hm
  rw [listed, hp, Option.bind_some, scanPackage] at hscan
  split_ifs at hscan with hdir
  rw [Bool.and_eq_true, Bool.and_eq_true] at hdir
  rw [loadSkillMeta, htext, Option.map_some] at hscan
  have hmeta := Option.some.inj hscan
  constructor
  · refine ⟨m, hget, hname, ?_⟩
    rw [← hmeta]
    show orText (describe text) name.toList = strip description
    rw [hdescribe, orText, if_neg hne]
  · have hvalid : ¬(!isValidSkillName name) = true := by
      rw [hdir.2]
      exact Bool.false_ne_true
    rw [load, if_neg hvalid, hget, Option.bind_some, hsource, hpackage]
    dsimp only
    rw [hp, Option.bind_some, loadSkillMeta, htext]
    exact ⟨_, rfl, hreads⟩

/-- What a skill that round-trips says of its directory. -/
theorem of_roundTrips {bundled : Dict String Package} {home : SkillsHome} {name : String}
    {description body : List Char} (hbundled : bundledSkillNameExists bundled name = false)
    (h : RoundTrips bundled home name description body) :
    (listed home.localDirs name).isSome ∧ Topmost home.localDirs name ∧
      ∃ p text, home.localDirs.get? name = some p ∧ p.skillMd.bind readText = some text ∧
        Reads text name.toList (strip description) (body.dropWhile isSpace) := by
  obtain ⟨⟨m, hget, hname, -⟩, ⟨loaded, hload, hreads⟩⟩ := h
  obtain ⟨hm, -⟩ := of_get?_reload hbundled hget
  rw [hname] at hm
  have hlisted : (listed home.localDirs name).isSome := by
    rw [hm]
    rfl
  refine ⟨hlisted, ?_, ?_⟩
  · obtain ⟨top, htopListed, hsame, htop⟩ := exists_topmost hlisted
    obtain ⟨m', hm'⟩ := Option.isSome_iff_exists.mp htopListed
    have hget' : (reload bundled home.localDirs).get? (normalizeSkillName top) = some m' :=
      get?_reload hm' htop
    rw [hsame, hget] at hget'
    have heq : top = name := by
      rw [← (listed_package hm').1, ← Option.some.inj hget', hname]
    rwa [heq] at htop
  · obtain ⟨-, hpackage, hsource⟩ := listed_package hm
    rw [load] at hload
    split_ifs at hload with hvalid
    rw [hget, Option.bind_some, hsource, hpackage] at hload
    obtain ⟨p, hp, hmeta⟩ := Option.bind_eq_some_iff.mp hload
    obtain ⟨text, htext, rfl⟩ := Option.map_eq_some_iff.mp hmeta
    exact ⟨p, text, hp, htext, hreads⟩

/-- A promoted skill is listed and read as it was installed exactly when its texts are plain and
it is shown. -/
theorem skill_round_trips_iff (home home₁ home₂ : SkillsHome) (bundled : Dict String Package)
    (failure : Option (String × SkillsHome)) (swap : Except (String × SkillsHome) Bool)
    (raw : String) (description body : PyText)
    (hdescription : ∃ c ∈ description, PyText.blankChar c = false)
    (hinstall : installSkillDraft
      ⟨some (.text raw), some (.text description), some (.text body), false⟩ failure home =
        .ok (none, home₁))
    (hpromote : promoteSkill ⟨some (.text raw), none, none, false⟩ bundled swap home₁ =
      .ok (none, home₂)) :
    description.encodable = true ∧ body.encodable = true ∧
      (RoundTrips bundled home₂ (stripped raw) description.shown body.shown ↔
        Shown home.localDirs (stripped raw) description.shown body.shown) := by
  obtain ⟨hvalid, hdescriptionEncodes, hbodyEncodes, hdirs, hdraft⟩ :=
    installSkillDraft_ok hinstall
  obtain ⟨bytes, hbytes⟩ : ∃ bytes, encodeUtf8
      (assembleSkillMd (stripped raw).toList description.shown body.shown) = bytes := ⟨_, rfl⟩
  have hread : readText bytes = some (universalNewlines
      (assembleSkillMd (stripped raw).toList description.shown body.shown)) := by
    rw [← hbytes]
    exact readText_encoded _
  rw [hbytes] at hdraft
  obtain ⟨hbundled, hplaced⟩ := promoteSkill_ok hdraft hpromote
  refine ⟨hdescriptionEncodes, hbodyEncodes, ?_⟩
  rw [hdirs] at hplaced
  have hne := strip_shown_ne_nil hdescription hdescriptionEncodes
  have hlistable (name : String) : (listed home₂.localDirs name).isSome ↔
      Listable home.localDirs (destination home.localDirs (stripped raw)) name := by
    rw [hplaced]
    exact listed_set_isSome (by rw [Option.bind_some, hread]; rfl)
  have hplain : Reads (universalNewlines
      (assembleSkillMd (stripped raw).toList description.shown body.shown)) (stripped raw).toList
      (strip description.shown) (body.shown.dropWhile isSpace) ↔
        Plain description.shown body.shown := reads_assembled_iff (plainName_of_valid hvalid) hne
  have htopmost : Topmost home₂.localDirs (stripped raw) ↔
      ∀ other, Listable home.localDirs (destination home.localDirs (stripped raw)) other →
        normalizeSkillName other = normalizeSkillName (stripped raw) → other ≤ stripped raw :=
    forall_congr' fun other => imp_congr_left (hlistable other)
  constructor
  · intro h
    obtain ⟨hlisted, htop, p, text, hp, htext, hreads⟩ := of_roundTrips hbundled h
    refine ⟨htopmost.mp htop, ?_⟩
    by_cases hdest : destination home.localDirs (stripped raw) = stripped raw
    · rw [hplaced, hdest, Dict.get?_set_self] at hp
      obtain rfl := Option.some.inj hp
      rw [Option.bind_some, hread] at htext
      obtain rfl := Option.some.inj htext
      exact .inl ⟨hdest, hplain.mp hreads⟩
    · rw [hplaced, Dict.get?_set_ne _ _ hdest] at hp
      obtain ⟨-, -, heq | ⟨q, hq, hdir, -⟩⟩ := (hlistable (stripped raw)).mp hlisted
      · exact absurd heq.symm hdest
      · rw [hp] at hq
        obtain rfl := Option.some.inj hq
        exact .inr ⟨hdest, p, text, hp, hdir, htext, hreads⟩
  · rintro ⟨htop, ⟨hdest, hclean⟩ | ⟨hdest, p, text, hp, hdir, htext, hreads⟩⟩
    · have hlisted := (hlistable (stripped raw)).mpr
        ⟨valid_stripped hvalid, hidden_of_valid hvalid, .inl hdest.symm⟩
      have hp : home₂.localDirs.get? (stripped raw) = some ⟨true, some bytes⟩ := by
        rw [hplaced, hdest, Dict.get?_set_self]
      exact roundTrips_of_shown hp hlisted (htopmost.mpr htop) hread hne (hplain.mpr hclean)
    · have hsome : (p.skillMd.bind readText).isSome := by
        rw [htext]
        rfl
      have hlisted := (hlistable (stripped raw)).mpr
        ⟨valid_stripped hvalid, hidden_of_valid hvalid, .inr ⟨p, hp, hdir, hsome⟩⟩
      refine roundTrips_of_shown ?_ hlisted (htopmost.mpr htop) htext hne hreads
      rw [hplaced, Dict.get?_set_ne _ _ hdest]
      exact hp

end RoundTrip

section Sample

/-- A case folding that is right on names in lower case. -/
@[reducible] def lowerNames : CaseFold := ⟨id⟩

attribute [local instance] lowerNames

def emptyHome : SkillsHome := ⟨.empty, .empty⟩

def draftHome (content : List Char) : SkillsHome :=
  { emptyHome with drafts := Dict.empty.set "tidy" (some (encodeUtf8 content)) }

def promotedHome (content : List Char) : SkillsHome :=
  { drafts := (draftHome content).drafts.pop "tidy"
    localDirs := Dict.empty.set "tidy" ⟨true, some (encodeUtf8 content)⟩ }

def scalars (cs : List Char) : PyText := cs.map .scalar

theorem encoded_scalars (cs : List Char) : encoded (scalars cs) = .ok cs := by
  have hencodable : (scalars cs).encodable = true := by
    rw [scalars, PyText.encodable, List.all_map]
    exact List.all_eq_true.mpr fun _ _ => rfl
  have hshown : (scalars cs).shown = cs := by
    rw [scalars, PyText.shown, List.map_map]
    exact List.map_id cs
  rw [encoded, if_pos hencodable, hshown]

theorem validate_encoded (cs : List Char)
    (hsize : ¬maxBodyBytes < bodyByteLen (universalNewlines cs))
    (hfields : ¬(strip (field (parseFrontmatter (universalNewlines cs)) nameKey) = [] ∨
      strip (field (parseFrontmatter (universalNewlines cs)) descriptionKey) = [])) :
    validateSkillPackage (some (encodeUtf8 cs)) = .ok none := by
  unfold validateSkillPackage
  dsimp only
  rw [readText_encoded]
  dsimp only
  rw [if_neg hsize, if_neg hfields]

/-- A small package is installed and promoted. -/
theorem tidy_installed (description body : List Char)
    (hbody : ¬maxBodyBytes < bodyByteLen body)
    (hsize : ¬maxBodyBytes < bodyByteLen (assembleSkillMd "tidy".toList description body))
    (hshape : validateSkillPackage (some (encodeUtf8
      (assembleSkillMd "tidy".toList description body))) = .ok none) :
    installSkillDraft ⟨some (.text "tidy"), some (.text (scalars description)),
        some (.text (scalars body)), false⟩ none emptyHome =
        .ok (none, draftHome (assembleSkillMd "tidy".toList description body)) ∧
      promoteSkill ⟨some (.text "tidy"), none, none, false⟩ .empty (.ok true)
        (draftHome (assembleSkillMd "tidy".toList description body)) =
        .ok (none, promotedHome (assembleSkillMd "tidy".toList description body)) := by
  have hname : nameArg (some (.text "tidy")) = .ok "tidy" := by decide +kernel
  have hvalid : ¬(!isValidSkillName "tidy") = true := by decide +kernel
  have hstripped : stripped "tidy" = "tidy" := by decide +kernel
  have hdraft (content : List Char) :
      (draftHome content).drafts.get? "tidy" = some (some (encodeUtf8 content)) :=
    Dict.get?_set_self _ _ _
  have hnone : ¬bundledSkillNameExists .empty "tidy" = true := Bool.false_ne_true
  constructor
  · unfold installSkillDraft
    rw [hname]
    dsimp only
    unfold installText
    rw [encoded_scalars]
    dsimp only
    rw [if_neg hbody, encoded_scalars]
    dsimp only
    rw [if_neg hsize]
    unfold writeSkillDraft
    rw [if_neg hvalid, if_neg hsize]
    dsimp only
    rw [hshape, hstripped]
    rfl
  · unfold promoteSkill
    rw [hname]
    dsimp only
    rw [if_neg Bool.false_ne_true]
    unfold promoteDraftSkill
    rw [if_neg hvalid, hstripped]
    dsimp only
    rw [hdraft]
    dsimp only
    rw [hshape]
    dsimp only
    rw [if_neg hnone]
    rfl

def plainDescription : List Char := ['T', 'i', 'd', 'y', ' ', 'u', 'p']

def plainBody : List Char := ['G', 'o', '\n']

theorem skill_round_trips_sample :
    RoundTrips .empty (promotedHome (assembleSkillMd "tidy".toList plainDescription plainBody))
      (stripped "tidy") (scalars plainDescription).shown (scalars plainBody).shown := by
  obtain ⟨hinstall, hpromote⟩ := tidy_installed plainDescription plainBody (by decide +kernel)
    (by decide +kernel) (validate_encoded _ (by decide +kernel) (by decide +kernel))
  refine (skill_round_trips_iff _ _ _ _ _ _ "tidy" _ _ ?_ hinstall hpromote).2.2.mpr ⟨?_, .inl ?_⟩
  · exact ⟨.scalar 'T', List.mem_cons_self, by decide⟩
  · rintro other ⟨-, -, rfl | ⟨p, hp, -⟩⟩ -
    · exact le_of_eq (by decide +kernel)
    · cases hp
  · refine ⟨by decide +kernel, ?_⟩
    constructor
    case one_line => decide +kernel
    case begins =>
      intro c hc
      have hfirst : (strip (scalars plainDescription).shown).head?.all (!quote ·) := by
        decide +kernel
      rw [hc] at hfirst
      simpa using hfirst
    case ends =>
      intro c hc
      have hlast : (strip (scalars plainDescription).shown).getLast?.all (!quote ·) := by
        decide +kernel
      rw [hc] at hlast
      simpa using hlast
    case no_return => decide +kernel

/-- The description `Tidy`, a line feed and `name: other`. -/
def linedDescription : List Char :=
  ['T', 'i', 'd', 'y', '\n', 'n', 'a', 'm', 'e', ':', ' ', 'o', 't', 'h', 'e', 'r']

/-- The second line of a description is read as another field. -/
theorem second_line_is_a_field : ¬∀ (names : CaseFold) (home home₁ home₂ : SkillsHome)
    (bundled : Dict String Package) (failure : Option (String × SkillsHome))
    (swap : Except (String × SkillsHome) Bool) (raw : String) (description body : PyText),
    (∃ c ∈ description, PyText.blankChar c = false) →
    installSkillDraft ⟨some (.text raw), some (.text description), some (.text body), false⟩
      failure home = .ok (none, home₁) →
    @promoteSkill names ⟨some (.text raw), none, none, false⟩ bundled swap home₁ =
      .ok (none, home₂) →
    @RoundTrips names bundled home₂ (stripped raw) description.shown body.shown := by
  intro hall
  obtain ⟨hinstall, hpromote⟩ := tidy_installed linedDescription plainBody (by decide +kernel)
    (by decide +kernel) (validate_encoded _ (by decide +kernel) (by decide +kernel))
  have hround := hall lowerNames _ _ _ _ _ _ "tidy" _ _
    ⟨.scalar 'T', List.mem_cons_self, by decide⟩ hinstall hpromote
  obtain ⟨-, -, p, text, hp, htext, hreads⟩ := of_roundTrips rfl hround
  have hplace : (promotedHome (assembleSkillMd "tidy".toList linedDescription
      plainBody)).localDirs.get? (stripped "tidy") = some ⟨true, some (encodeUtf8
        (assembleSkillMd "tidy".toList linedDescription plainBody))⟩ := by
    have hstripped : stripped "tidy" = "tidy" := by decide +kernel
    rw [hstripped]
    exact Dict.get?_set_self _ _ _
  rw [hplace] at hp
  obtain rfl := Option.some.inj hp
  rw [Option.bind_some, readText_encoded] at htext
  obtain rfl := Option.some.inj htext
  have hread : (parseFrontmatter (universalNewlines
      (assembleSkillMd "tidy".toList linedDescription plainBody))).items =
      [(nameKey, ['o', 't', 'h', 'e', 'r']), (descriptionKey, ['T', 'i', 'd', 'y'])] := by
    decide +kernel
  have hfields := hread.symm.trans hreads.1
  exact absurd hfields (by decide +kernel)

end Sample

end Elyra.Skills
