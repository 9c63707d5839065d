import Mathlib.Data.List.Infix
import Mathlib.Data.String.Basic
import Elyra.Framework.Framed
import Elyra.Framework.Sorted
import Elyra.Framework.Text

namespace Elyra.Tools

/-- A path below a package directory, by its parts. -/
abbrev RelPath := List String

/-- A name that a directory entry can have. -/
structure IsName (n : String) : Prop where
  nonempty : n ≠ ""
  dot : n ≠ "."
  dots : n ≠ ".."
  slash : '/' ∉ n.toList
  nul : '\x00' ∉ n.toList

/-- A path that a file of a directory tree can have. -/
structure IsPath (path : RelPath) : Prop where
  nonempty : path ≠ []
  names : ∀ n ∈ path, IsName n

/-- Neither of two files lies where the other needs a directory. -/
def Apart (p q : RelPath) : Prop := ¬p <+: q ∧ ¬q <+: p

/-- The regular files of a package directory with their bytes. -/
structure PackageTree where
  files : List (RelPath × List UInt8)
  paths : ∀ f ∈ files, IsPath f.1
  apart : files.Pairwise fun f g => Apart f.1 g.1

def verifyRecordName : String := ".verify.json"

def contentHashExcludeNames : List String := [verifyRecordName]

/-- `path.relative_to(package_dir).as_posix()`. -/
def asPosix (path : RelPath) : String := .ofList (List.intercalate ['/'] (path.map String.toList))

/-- `path.name in CONTENT_HASH_EXCLUDE_NAMES`. -/
def excluded (path : RelPath) : Bool := path.getLast?.any fun n => n ∈ contentHashExcludeNames

def utf8Bytes (text : String) : List UInt8 := (encodeUtf8 text.toList).data.toList

namespace PackageTree

def entries (t : PackageTree) : List (RelPath × List UInt8) := t.files.filter fun f => !excluded f.1

/-- What the digest is updated with: path and content of each entry, a NUL after each. -/
def records (t : PackageTree) : List (List UInt8 × List UInt8) :=
  (sortBy (fun f => asPosix f.1) t.entries).map fun f => (utf8Bytes (asPosix f.1), f.2)

end PackageTree

/-- The digest of a package directory; a package that is no directory has no records. -/
def contentHash (sha256 : List UInt8 → String) : Option PackageTree → String
  | none => sha256 []
  | some t => sha256 (framedAll 0 t.records)

/-- The same regular files with the same bytes, verify records apart. -/
def SameFiles (a b : Option PackageTree) : Prop :=
  ∀ path bytes, excluded path = false →
    ((∃ t, a = some t ∧ (path, bytes) ∈ t.files) ↔ ∃ t, b = some t ∧ (path, bytes) ∈ t.files)

section Bytes

theorem zero_not_mem_utf8EncodeChar (c : Char) (h : c ≠ '\x00') :
    (0 : UInt8) ∉ String.utf8EncodeChar c := by
  have hpos : 0 < c.val.toNat := by
    rw [Nat.pos_iff_ne_zero]
    intro hzero
    exact h (Char.ext (UInt32.toNat_inj.mp hzero))
  have hbyte (n : Nat) (hn : n % 256 ≠ 0) : (0 : UInt8) ≠ UInt8.ofNat n := by
    intro heq
    have hnat := congrArg UInt8.toNat heq
    rw [UInt8.toNat_ofNat'] at hnat
    exact hn hnat.symm
  unfold String.utf8EncodeChar
  dsimp only
  split_ifs with h1 h2 h3
  all_goals
    simp only [List.mem_cons, List.not_mem_nil, or_false, not_or]
  · exact hbyte _ (by omega)
  · exact ⟨hbyte _ (by omega), hbyte _ (by omega)⟩
  · exact ⟨hbyte _ (by omega), hbyte _ (by omega), hbyte _ (by omega)⟩
  · exact ⟨hbyte _ (by omega), hbyte _ (by omega), hbyte _ (by omega), hbyte _ (by omega)⟩

theorem utf8Bytes_eq (text : String) :
    utf8Bytes text = text.toList.flatMap String.utf8EncodeChar := by
  rw [utf8Bytes, encodeUtf8_eq, List.utf8Encode]
  exact List.toList_data_toByteArray

/-- A text without a NUL has no NUL byte. -/
theorem zero_not_mem_utf8Bytes (text : String) (h : '\x00' ∉ text.toList) :
    (0 : UInt8) ∉ utf8Bytes text := by
  rw [utf8Bytes_eq, List.mem_flatMap]
  rintro ⟨c, hc, hzero⟩
  refine zero_not_mem_utf8EncodeChar c ?_ hzero
  rintro rfl
  exact h hc

theorem utf8Bytes_injective : Function.Injective utf8Bytes := by
  intro a b h
  have hbytes : a.toList.utf8Encode = b.toList.utf8Encode := by
    apply ByteArray.ext
    apply Array.ext'
    exact h
  exact String.toList_inj.mp (utf8Encode_injective _ _ hbytes)

/-- Paths of files have different texts. -/
theorem asPosix_inj {p q : RelPath} (hp : IsPath p) (hq : IsPath q) (h : asPosix p = asPosix q) :
    p = q := by
  have hchars := String.ofList_injective h
  have hslash {path : RelPath} (hpath : IsPath path) :
      ∀ cs ∈ path.map String.toList, '/' ∉ cs := by
    intro cs hcs
    obtain ⟨n, hn, rfl⟩ := List.mem_map.mp hcs
    exact (hpath.names n hn).slash
  have hparts := intercalate_inj (by simpa using hp.nonempty) (by simpa using hq.nonempty)
    (hslash hp) (hslash hq) hchars
  exact (List.map_injective_iff.mpr fun a b => String.toList_inj.mp) hparts

theorem nul_not_mem_asPosix {p : RelPath} (hp : IsPath p) : '\x00' ∉ (asPosix p).toList := by
  rw [asPosix, String.toList_ofList]
  intro hmem
  obtain hsep | ⟨cs, hcs, hnul⟩ := mem_intercalate hmem
  · exact absurd hsep (by decide)
  · obtain ⟨n, hn, rfl⟩ := List.mem_map.mp hcs
    exact (hp.names n hn).nul hnul

end Bytes

/-- The bytes of a file hold a record of another file after it. -/
structure HoldsRecord (p : RelPath) (bytes x : List UInt8) (q : RelPath) (y : List UInt8) :
    Prop where
  bytes : bytes = x ++ 0 :: (utf8Bytes (asPosix q) ++ 0 :: y)
  path : IsPath q
  hashed : excluded q = false
  apart : Apart p q
  later : asPosix p < asPosix q

/-- Packages of at most one hashed file, which holds no record of another. -/
def ReadOneWay : Option PackageTree → Prop
  | none => True
  | some t => t.entries = [] ∨
      ∃ f, t.entries = [f] ∧ ¬∃ x q y, HoldsRecord f.1 f.2 x q y

/-- No hashed file has a NUL byte. -/
def NulFree (t : PackageTree) : Prop := ∀ f ∈ t.entries, (0 : UInt8) ∉ f.2

section Entries

variable {t u : PackageTree}

theorem mem_entries {f : RelPath × List UInt8} :
    f ∈ t.entries ↔ f ∈ t.files ∧ excluded f.1 = false := by
  rw [PackageTree.entries, List.mem_filter]
  simp

theorem path_of_entry {f : RelPath × List UInt8} (hf : f ∈ t.entries) : IsPath f.1 :=
  t.paths f (mem_entries.mp hf).1

theorem entries_apart (t : PackageTree) : t.entries.Pairwise fun f g => Apart f.1 g.1 :=
  t.apart.sublist List.filter_sublist

/-- The entries in the order of the digest, each strictly after those before it. -/
theorem sorted_entries (t : PackageTree) :
    (sortBy (fun f => asPosix f.1) t.entries).Pairwise fun f g =>
      Apart f.1 g.1 ∧ asPosix f.1 < asPosix g.1 := by
  have hperm := sortBy_perm (fun f : RelPath × List UInt8 => asPosix f.1) t.entries
  have hsymm : ∀ {f g : RelPath × List UInt8}, Apart f.1 g.1 → Apart g.1 f.1 :=
    fun h => ⟨h.2, h.1⟩
  have hapart := hperm.symm.pairwise (entries_apart t) hsymm
  have hle := pairwise_sortBy (fun f : RelPath × List UInt8 => asPosix f.1) t.entries
  apply (hapart.and hle).imp_of_mem
  intro f g hf hg h
  refine ⟨h.1, lt_of_le_of_ne h.2 ?_⟩
  intro heq
  have hsame := asPosix_inj (path_of_entry ((mem_sortBy _ _ f).mp hf))
    (path_of_entry ((mem_sortBy _ _ g).mp hg)) heq
  exact h.1.1 (by rw [hsame])

theorem mem_records {r : List UInt8 × List UInt8} :
    r ∈ t.records ↔ ∃ f ∈ t.entries, (utf8Bytes (asPosix f.1), f.2) = r := by
  rw [PackageTree.records, List.mem_map]
  simp only [mem_sortBy]

theorem zero_not_mem_key {r : List UInt8 × List UInt8} (hr : r ∈ t.records) :
    (0 : UInt8) ∉ r.1 := by
  obtain ⟨f, hf, rfl⟩ := mem_records.mp hr
  exact zero_not_mem_utf8Bytes _ (nul_not_mem_asPosix (path_of_entry hf))

theorem records_eq_nil : t.records = [] ↔ t.entries = [] := by
  rw [PackageTree.records, List.map_eq_nil_iff, ← List.length_eq_zero_iff, length_sortBy,
    List.length_eq_zero_iff]

/-- The first two records are of two files, the second after the first. -/
theorem first_records {r₁ r₂ : List UInt8 × List UInt8} {rest : List (List UInt8 × List UInt8)}
    (h : t.records = r₁ :: r₂ :: rest) : ∃ f g, f ∈ t.entries ∧ g ∈ t.entries ∧
      (utf8Bytes (asPosix f.1), f.2) = r₁ ∧ (utf8Bytes (asPosix g.1), g.2) = r₂ ∧
      Apart f.1 g.1 ∧ asPosix f.1 < asPosix g.1 := by
  rw [PackageTree.records] at h
  obtain ⟨f, fs, hsorted, hf, h⟩ := List.map_eq_cons_iff.mp h
  obtain ⟨g, gs, rfl, hg, -⟩ := List.map_eq_cons_iff.mp h
  have hpair := sorted_entries t
  rw [hsorted] at hpair
  have hfg := List.rel_of_pairwise_cons hpair List.mem_cons_self
  have hin (e : RelPath × List UInt8) (he : e ∈ f :: g :: gs) : e ∈ t.entries := by
    rw [← hsorted] at he
    exact (mem_sortBy _ _ e).mp he
  exact ⟨f, g, hin f List.mem_cons_self, hin g (List.mem_cons_of_mem _ List.mem_cons_self), hf, hg,
    hfg.1, hfg.2⟩

theorem mem_entries_of_records (h : t.records = u.records) {f : RelPath × List UInt8}
    (hf : f ∈ t.entries) : f ∈ u.entries := by
  have hr : (utf8Bytes (asPosix f.1), f.2) ∈ u.records := by
    rw [← h]
    exact mem_records.mpr ⟨f, hf, rfl⟩
  obtain ⟨g, hg, heq⟩ := mem_records.mp hr
  obtain ⟨hkey, hbytes⟩ := Prod.mk.inj heq
  have hpath := asPosix_inj (path_of_entry hg) (path_of_entry hf) (utf8Bytes_injective hkey)
  rw [← Prod.ext hpath hbytes]
  exact hg

theorem sameFiles_some : SameFiles (some t) (some u) ↔ ∀ f, f ∈ t.entries ↔ f ∈ u.entries := by
  constructor
  · intro h f
    rw [mem_entries, mem_entries]
    constructor
    · rintro ⟨hf, hex⟩
      obtain ⟨v, hv, hin⟩ := (h f.1 f.2 hex).mp ⟨t, rfl, hf⟩
      cases hv
      exact ⟨hin, hex⟩
    · rintro ⟨hf, hex⟩
      obtain ⟨v, hv, hin⟩ := (h f.1 f.2 hex).mpr ⟨u, rfl, hf⟩
      cases hv
      exact ⟨hin, hex⟩
  · intro h path bytes hex
    constructor
    · rintro ⟨v, hv, hf⟩
      cases hv
      exact ⟨u, rfl, (mem_entries.mp ((h (path, bytes)).mp (mem_entries.mpr ⟨hf, hex⟩))).1⟩
    · rintro ⟨v, hv, hf⟩
      cases hv
      exact ⟨t, rfl, (mem_entries.mp ((h (path, bytes)).mpr (mem_entries.mpr ⟨hf, hex⟩))).1⟩

theorem sameFiles_of_records (h : t.records = u.records) : SameFiles (some t) (some u) :=
  sameFiles_some.mpr fun _ => ⟨mem_entries_of_records h, mem_entries_of_records h.symm⟩

end Entries

section Identify

variable {sha256 : List UInt8 → String}

/-- A package of one hashed file. -/
def single (p : RelPath) (hp : IsPath p) (bytes : List UInt8) : PackageTree where
  files := [(p, bytes)]
  paths f hf := by
    rw [List.mem_singleton.mp hf]
    exact hp
  apart := List.pairwise_singleton _ _

theorem entries_single {p : RelPath} (hp : IsPath p) (hex : excluded p = false)
    (bytes : List UInt8) : (single p hp bytes).entries = [(p, bytes)] := by
  simp [PackageTree.entries, single, hex]

theorem records_single {p : RelPath} (hp : IsPath p) (hex : excluded p = false)
    (bytes : List UInt8) :
    (single p hp bytes).records = [(utf8Bytes (asPosix p), bytes)] := by
  rw [PackageTree.records, entries_single hp hex]
  rfl

/-- A package of two hashed files. -/
def double (p q : RelPath) (hp : IsPath p) (hq : IsPath q) (hpq : Apart p q)
    (x y : List UInt8) : PackageTree where
  files := [(p, x), (q, y)]
  paths f hf := by
    obtain rfl | hf := List.mem_cons.mp hf
    · exact hp
    · rw [List.mem_singleton.mp hf]
      exact hq
  apart := by simpa using hpq

theorem records_double {p q : RelPath} (hp : IsPath p) (hq : IsPath q) (hpq : Apart p q)
    (hexp : excluded p = false) (hexq : excluded q = false) (hlt : asPosix p < asPosix q)
    (x y : List UInt8) :
    (double p q hp hq hpq x y).records =
      [(utf8Bytes (asPosix p), x), (utf8Bytes (asPosix q), y)] := by
  have hentries : (double p q hp hq hpq x y).entries = [(p, x), (q, y)] := by
    simp [PackageTree.entries, double, hexp, hexq]
  have hsorted : sortBy (fun f : RelPath × List UInt8 => asPosix f.1) [(p, x), (q, y)] =
      [(p, x), (q, y)] := by
    apply List.Pairwise.insertionSort_eq
    simpa using hlt.le
  rw [PackageTree.records, hentries, hsorted]
  rfl

/-- A package that is read in one way is the only one of its hash. -/
theorem sameFiles_of_readOneWay (hsha : Function.Injective sha256) {a b : Option PackageTree}
    (ha : ReadOneWay a) (h : contentHash sha256 a = contentHash sha256 b) : SameFiles a b := by
  have hempty {t : PackageTree} (ht : t.entries = []) (u : Option PackageTree)
      (hu : contentHash sha256 u = sha256 []) : SameFiles (some t) u := by
    cases u with
    | none =>
      intro path bytes hex
      constructor
      · rintro ⟨v, hv, hf⟩
        cases hv
        have hmem := mem_entries.mpr ⟨hf, hex⟩
        rw [ht] at hmem
        cases hmem
      · rintro ⟨v, hv, -⟩
        cases hv
    | some u =>
      apply sameFiles_of_records
      rw [records_eq_nil.mpr ht, framedAll_eq_nil.mp (hsha hu)]
  have hsymm {a b : Option PackageTree} (hab : SameFiles a b) : SameFiles b a :=
    fun path bytes hex => (hab path bytes hex).symm
  cases a with
  | none =>
    cases b with
    | none => exact fun _ _ _ => Iff.rfl
    | some u =>
      have hnil := records_eq_nil.mp (framedAll_eq_nil.mp (hsha h.symm))
      exact hsymm (hempty hnil none rfl)
  | some t =>
    obtain hnil | ⟨f, hf, hone⟩ := ha
    · apply hempty hnil
      rw [← h, contentHash, records_eq_nil.mpr hnil]
      rfl
    · have hmem : f ∈ t.entries := by
        rw [hf]
        exact List.mem_cons_self
      have hrecords : t.records = [(utf8Bytes (asPosix f.1), f.2)] := by
        rw [PackageTree.records, hf]
        rfl
      cases b with
      | none =>
        rw [contentHash, contentHash, hrecords] at h
        exact absurd (framedAll_eq_nil.mp (hsha h)) (List.cons_ne_nil _ _)
      | some u =>
        apply sameFiles_of_records
        have hstream := hsha h
        rw [hrecords] at hstream ⊢
        have hkey : (0 : UInt8) ∉ utf8Bytes (asPosix f.1) :=
          zero_not_mem_utf8Bytes _ (nul_not_mem_asPosix (path_of_entry hmem))
        obtain heq | ⟨x, q, y, rest, hrest, z, hz⟩ :=
          framedAll_single hkey (fun r hr => zero_not_mem_key hr) hstream
        · exact heq.symm
        · obtain ⟨g, k, hg, hk, hfirst, hsecond, hapart, hlt⟩ := first_records hrest
          have hpath := asPosix_inj (path_of_entry hg) (path_of_entry hmem)
            (utf8Bytes_injective (Prod.mk.inj hfirst).1)
          rw [hpath] at hapart hlt
          refine absurd ⟨x, k.1, z, ?_, path_of_entry hk, (mem_entries.mp hk).2, hapart, hlt⟩ hone
          rw [(Prod.mk.inj hsecond).1]
          exact hz

theorem apart_irrefl {p : RelPath} (h : Apart p p) : False := h.1 (List.prefix_refl p)

/-- A package that reads in a second way shares its hash with another one. -/
theorem collision_of_not_readOneWay {t : PackageTree} (ht : ¬ReadOneWay (some t)) :
    ∃ u, contentHash sha256 (some t) = contentHash sha256 (some u) ∧
      ¬SameFiles (some t) (some u) := by
  have hne : t.entries ≠ [] := fun h => ht (.inl h)
  have hsecond : ∀ f, t.entries = [f] → ∃ x q y, HoldsRecord f.1 f.2 x q y := by
    intro f hf
    by_contra hno
    exact ht (.inr ⟨f, hf, hno⟩)
  match hrecords : t.records with
  | [] => exact absurd (records_eq_nil.mp hrecords) hne
  | [r] =>
    -- One file, whose bytes hold a record: the two of it have the same stream.
    have hlen : t.entries.length = 1 := by
      have h := congrArg List.length hrecords
      rw [PackageTree.records, List.length_map, length_sortBy] at h
      exact h
    obtain ⟨f, hf⟩ := List.length_eq_one_iff.mp hlen
    obtain ⟨x, q, y, hholds⟩ := hsecond f hf
    have hmem : f ∈ t.entries := by
      rw [hf]
      exact List.mem_cons_self
    have hstream : t.records = [(utf8Bytes (asPosix f.1), f.2)] := by
      rw [PackageTree.records, hf]
      rfl
    have hdouble := records_double (path_of_entry hmem) hholds.path hholds.apart
      (mem_entries.mp hmem).2 hholds.hashed hholds.later x y
    refine ⟨double f.1 q (path_of_entry hmem) hholds.path hholds.apart x y, ?_, ?_⟩
    · rw [contentHash, contentHash, hstream, hdouble, hholds.bytes, framedAll_split]
    · intro hsame
      have hq : (q, y) ∈ (double f.1 q (path_of_entry hmem) hholds.path hholds.apart x y).entries :=
        mem_entries.mpr ⟨List.mem_cons_of_mem _ List.mem_cons_self, hholds.hashed⟩
      have hin := (sameFiles_some.mp hsame (q, y)).mpr hq
      rw [hf, List.mem_singleton] at hin
      have happ := hholds.apart
      rw [← hin] at happ
      exact apart_irrefl happ
  | r₁ :: r₂ :: rest =>
    -- Several files: one file whose bytes are the records of the others has the same stream.
    obtain ⟨f, g, hf, hg, hfirst, -, hapart, -⟩ := first_records hrecords
    have hrest : r₂ :: rest ≠ [] := List.cons_ne_nil _ _
    obtain ⟨y, hy⟩ : ∃ y, framedAll 0 (r₂ :: rest) = y ++ [0] := framedAll_last hrest
    have hsingle := records_single (path_of_entry hf) (mem_entries.mp hf).2 (f.2 ++ 0 :: y)
    refine ⟨single f.1 (path_of_entry hf) (f.2 ++ 0 :: y), ?_, ?_⟩
    · rw [contentHash, contentHash, hrecords, hsingle, ← hfirst, framedAll_merge hy]
    · intro hsame
      have hin := (sameFiles_some.mp hsame g).mp hg
      rw [entries_single (path_of_entry hf) (mem_entries.mp hf).2, List.mem_singleton] at hin
      rw [hin] at hapart
      exact apart_irrefl hapart

/-- Packages without NUL bytes are told apart. -/
theorem sameFiles_of_nulFree (hsha : Function.Injective sha256) {t u : PackageTree}
    (ht : NulFree t) (hu : NulFree u)
    (h : contentHash sha256 (some t) = contentHash sha256 (some u)) :
    SameFiles (some t) (some u) := by
  have hfree {v : PackageTree} (hv : NulFree v) :
      ∀ r ∈ v.records, (0 : UInt8) ∉ r.1 ∧ (0 : UInt8) ∉ r.2 := by
    intro r hr
    refine ⟨zero_not_mem_key hr, ?_⟩
    obtain ⟨f, hf, rfl⟩ := mem_records.mp hr
    exact hv f hf
  exact sameFiles_of_records (framedAll_inj (hfree ht) (hfree hu) (hsha h))

/-- The hash of a package identifies it among all packages exactly when it has at most one hashed
file and no second record in its bytes; packages without NUL bytes are told apart. -/
theorem content_hash_identifies_iff (sha256 : List UInt8 → String)
    (hsha : Function.Injective sha256) :
    (∀ a, (∀ b, contentHash sha256 a = contentHash sha256 b → SameFiles a b) ↔ ReadOneWay a) ∧
    ∀ t u, NulFree t → NulFree u → contentHash sha256 (some t) = contentHash sha256 (some u) →
      SameFiles (some t) (some u) := by
  refine ⟨?_, fun t u ht hu h => sameFiles_of_nulFree hsha ht hu h⟩
  intro a
  constructor
  · intro hall
    cases a with
    | none => trivial
    | some t =>
      by_contra hnot
      obtain ⟨u, hhash, hdiffers⟩ := collision_of_not_readOneWay hnot
      exact hdiffers (hall (some u) hhash)
  · exact fun ha b h => sameFiles_of_readOneWay hsha ha h

end Identify

section Sample

/-- A digest without collisions: the bytes themselves. -/
def wholeBytes (bytes : List UInt8) : String := .ofList (bytes.map Char.ofUInt8)

theorem wholeBytes_injective : Function.Injective wholeBytes := by
  intro a b h
  have hchar : Function.Injective Char.ofUInt8 := by
    intro x y hxy
    have hval : x.toUInt32.toNat = y.toUInt32.toNat := congrArg (fun c : Char => c.val.toNat) hxy
    rw [UInt8.toNat_toUInt32, UInt8.toNat_toUInt32] at hval
    exact UInt8.toNat_inj.mp hval
  exact List.map_injective_iff.mpr hchar (String.ofList_injective h)

theorem isPath_of_name {n : String} (h : IsName n) : IsPath [n] := by
  refine ⟨List.cons_ne_nil _ _, ?_⟩
  intro m hm
  rw [List.mem_singleton.mp hm]
  exact h

theorem isName_a : IsName "a.py" := ⟨by decide, by decide, by decide, by decide, by decide⟩

theorem isName_b : IsName "b.py" := ⟨by decide, by decide, by decide, by decide, by decide⟩

/-- `a.py` with the byte `x` and `b.py` with the byte `y`. -/
def twoFiles : PackageTree :=
  double ["a.py"] ["b.py"] (isPath_of_name isName_a) (isPath_of_name isName_b)
    (by unfold Apart; decide) [120] [121]

/-- `a.py` alone, with a NUL, `b.py`, a NUL and `y` in its bytes. -/
def oneFile : PackageTree :=
  single ["a.py"] (isPath_of_name isName_a) ([120] ++ 0 :: (utf8Bytes "b.py" ++ 0 :: [121]))

theorem content_hash_identifies_sample : SameFiles (some twoFiles) (some twoFiles) :=
  (content_hash_identifies_iff wholeBytes wholeBytes_injective).2 twoFiles twoFiles
    (by unfold NulFree; decide) (by unfold NulFree; decide) rfl

/-- Whatever the digest, the two packages have one hash, and only one of them has `b.py`. -/
theorem packages_share_hash :
    ¬∀ sha256 : List UInt8 → String, Function.Injective sha256 → ∀ a b,
      contentHash sha256 a = contentHash sha256 b → SameFiles a b := by
  intro h
  have hsame := h wholeBytes wholeBytes_injective (some twoFiles) (some oneFile) (by decide +kernel)
  obtain ⟨t, ht, hb⟩ := (hsame ["b.py"] [121] (by decide)).mp ⟨twoFiles, rfl, by decide⟩
  cases ht
  exact absurd hb (by decide)

end Sample

end Elyra.Tools
