import FreeBox.Lib.StrIndex

/-!
# The answer to `ListBuckets`

Model of `parse_list_buckets_xml` in `plugins/storage-s3/src/bucket.rs`, a search for
tags with offsets into the text.

Results:
* `round_append`: a round of the loop never panics and moves on.
* `round_element`: the round at an element returns its bucket.
* `parseListBucketsXml_spec`: the loop ends on every text, and it reads the lists of
  buckets that are written in the form of the service.
-/

namespace FreeBox.Storage

open FreeBox.Lib.StrIndex

/-! ## The parser -/

/-- `bucket::BucketInfo`. -/
structure BucketInfo where
  name : String
  creationDate : Option String
  deriving DecidableEq

/-- `format!("<{tag}>")`. -/
def openTag (tag : String) : List Char := '<' :: (tag.toList ++ ['>'])

/-- `format!("</{tag}>")`. -/
def closeTag (tag : String) : List Char := '<' :: '/' :: (tag.toList ++ ['>'])

/-- `bucket::extract_tag`. -/
def extractTag (s : List Char) (tag : String) : Except Panic (Option (List Char)) :=
  match find (openTag tag) s with
  | none => .ok none
  | some i => do
    let start := i + utf8Len (openTag tag)
    let rest ← sliceFrom s start
    match find (closeTag tag) rest with
    | none => return none
    | some i =>
      let stop := start + i
      let content ← slice s start stop
      return some content

/-- A round of the loop of `parse_list_buckets_xml` at `pos`: the bucket that is pushed
and the next position, or `none` when the loop ends. -/
def round (xml : List Char) (pos : ℕ) : Except Panic (Option (Option BucketInfo × ℕ)) := do
  let rest ← sliceFrom xml pos
  match find (openTag "Bucket") rest with
  | none => return none
  | some rel =>
    let start := pos + rel
    let rest ← sliceFrom xml start
    match find (closeTag "Bucket") rest with
    | none => return none
    | some e =>
      let stop := start + e + utf8Len (closeTag "Bucket")
      let chunk ← slice xml start stop
      let name ← extractTag chunk "Name"
      let name := name.getD []
      let creationDate ← extractTag chunk "CreationDate"
      return some
        (if name ≠ [] then
          some { name := .ofList name, creationDate := creationDate.map .ofList }
        else none, stop)

/-- The loop of `parse_list_buckets_xml` from `pos` on, in at most `fuel` rounds; `none`
when they do not suffice. -/
def parseFrom (xml : List Char) :
    (fuel : ℕ) → (pos : ℕ) → (buckets : List BucketInfo) →
      Option (Except Panic (List BucketInfo))
  | 0, _, _ => none
  | fuel + 1, pos, buckets =>
    match round xml pos with
    | .error e => some (.error e)
    | .ok none => some (.ok buckets)
    | .ok (some (bucket, pos)) => parseFrom xml fuel pos (buckets ++ bucket.toList)

/-- `bucket::parse_list_buckets_xml`. -/
def parseListBucketsXml (fuel : ℕ) (xml : String) : Option (Except Panic (List BucketInfo)) :=
  parseFrom xml.toList fuel 0 []

/-- The positions at which the loop looks for a bucket. -/
inductive Reached (xml : List Char) : ℕ → Prop
  | start : Reached xml 0
  | next {pos pos' : ℕ} {bucket : Option BucketInfo} (h : Reached xml pos)
      (hround : round xml pos = .ok (some (bucket, pos'))) : Reached xml pos'

/-! ## Termination -/

theorem extractTag_ok (s : List Char) (tag : String) : ∃ content, extractTag s tag = .ok content := by
  unfold extractTag
  cases hopen : find (openTag tag) s with
  | none => exact ⟨none, rfl⟩
  | some i =>
    obtain ⟨front, back, rfl, rfl⟩ := exists_of_find hopen
    have hrest := sliceFrom_append (front ++ openTag tag) back
    rw [utf8Len_append, List.append_assoc] at hrest
    simp only [hrest, bind, Except.bind]
    cases hclose : find (closeTag tag) back with
    | none => exact ⟨none, rfl⟩
    | some i =>
      obtain ⟨content, back, rfl, rfl⟩ := exists_of_find hclose
      have hcontent := slice_append (front ++ openTag tag) content (closeTag tag ++ back)
      rw [utf8Len_append, List.append_assoc] at hcontent
      simp only [hcontent]
      exact ⟨some content, rfl⟩

/-- A round at the boundary of a character is in bounds, and the next position is at a
later boundary. -/
theorem round_append (front rest : List Char) :
    ∃ r, round (front ++ rest) (utf8Len front) = .ok r ∧
      ∀ bucket pos', r = some (bucket, pos') →
        ∃ seg rest', rest = seg ++ rest' ∧ seg ≠ [] ∧ pos' = utf8Len (front ++ seg) := by
  rw [round, sliceFrom_append]
  simp only [bind, Except.bind]
  cases hopen : find (openTag "Bucket") rest with
  | none => exact ⟨none, rfl, nofun⟩
  | some rel =>
    obtain ⟨before, back, rfl, rfl⟩ := exists_of_find hopen
    have hrest := sliceFrom_append (front ++ before) (openTag "Bucket" ++ back)
    rw [utf8Len_append, List.append_assoc] at hrest
    simp only [hrest]
    cases hclose : find (closeTag "Bucket") (openTag "Bucket" ++ back) with
    | none => exact ⟨none, rfl, nofun⟩
    | some e =>
      obtain ⟨inner, after, hchunk, rfl⟩ := exists_of_find hclose
      have hslice := slice_append (front ++ before) (inner ++ closeTag "Bucket") after
      simp only [utf8Len_append, List.append_assoc] at hslice
      obtain ⟨name, hname⟩ := extractTag_ok (inner ++ closeTag "Bucket") "Name"
      obtain ⟨date, hdate⟩ := extractTag_ok (inner ++ closeTag "Bucket") "CreationDate"
      rw [← Nat.add_assoc] at hslice
      simp only [hchunk, hslice, hname, hdate]
      refine ⟨_, rfl, fun bucket pos' hr => ?_⟩
      obtain ⟨-, rfl⟩ := Prod.mk.inj (Option.some.inj hr)
      refine ⟨before ++ (inner ++ closeTag "Bucket"), after, by simp, by simp [closeTag], ?_⟩
      simp only [utf8Len_append, Nat.add_assoc]

theorem Reached.boundary {xml : List Char} {pos : ℕ} (h : Reached xml pos) :
    ∃ front rest, xml = front ++ rest ∧ pos = utf8Len front := by
  induction h with
  | start => exact ⟨[], xml, rfl, rfl⟩
  | next _ hround ih =>
    obtain ⟨front, rest, rfl, rfl⟩ := ih
    obtain ⟨r, hr, hnext⟩ := round_append front rest
    rw [hround] at hr
    obtain ⟨seg, rest', rfl, -, rfl⟩ := hnext _ _ (Except.ok.inj hr).symm
    exact ⟨front ++ seg, rest', (List.append_assoc ..).symm, rfl⟩

theorem Reached.round_ok {xml : List Char} {pos : ℕ} (h : Reached xml pos) :
    ∃ r, round xml pos = .ok r ∧
      ∀ bucket pos', r = some (bucket, pos') → pos < pos' ∧ pos' ≤ utf8Len xml := by
  obtain ⟨front, rest, rfl, rfl⟩ := h.boundary
  obtain ⟨r, hr, hnext⟩ := round_append front rest
  refine ⟨r, hr, fun bucket pos' hsome => ?_⟩
  obtain ⟨seg, rest', rfl, hseg, rfl⟩ := hnext bucket pos' hsome
  have hpos := utf8Len_pos hseg
  simp only [utf8Len_append]
  omega

/-- Each round consumes a character. -/
theorem parseFrom_total (front rest : List Char) {fuel : ℕ} (h : rest.length < fuel)
    (buckets : List BucketInfo) :
    ∃ buckets', parseFrom (front ++ rest) fuel (utf8Len front) buckets = some (.ok buckets') := by
  induction fuel generalizing front rest buckets with
  | zero => omega
  | succ fuel ih =>
    obtain ⟨r, hr, hnext⟩ := round_append front rest
    rw [parseFrom, hr]
    cases r with
    | none => exact ⟨buckets, rfl⟩
    | some r =>
      obtain ⟨bucket, pos'⟩ := r
      obtain ⟨seg, rest', rfl, hseg, rfl⟩ := hnext bucket pos' rfl
      have hlen := List.length_pos_iff.mpr hseg
      rw [List.length_append] at h
      dsimp only
      rw [← List.append_assoc]
      exact ih (front ++ seg) rest' (by omega) _

/-- More rounds than suffice change nothing. -/
theorem parseFrom_mono {xml : List Char} {fuel fuel' pos : ℕ} (hle : fuel ≤ fuel')
    {buckets : List BucketInfo} {r : Except Panic (List BucketInfo)}
    (h : parseFrom xml fuel pos buckets = some r) : parseFrom xml fuel' pos buckets = some r := by
  induction fuel generalizing fuel' pos buckets with
  | zero => cases h
  | succ fuel ih =>
    obtain ⟨fuel', rfl⟩ : ∃ n, fuel' = n + 1 := Nat.exists_eq_add_one.mpr (by omega)
    rw [parseFrom] at h ⊢
    split
    · next hround => rwa [hround] at h
    · next hround => rwa [hround] at h
    · next hround =>
      rw [hround] at h
      exact ih (by omega) h

/-! ## Lists of buckets -/

/-- A `<Bucket>` element and the text up to the next one. Texts without tags may stand
between the parts of the element. -/
structure BucketElement where
  bucket : BucketInfo
  beforeName : List Char
  afterName : List Char
  afterDate : List Char
  after : List Char
  name_ne : bucket.name ≠ ""
  name_free : '<' ∉ bucket.name.toList
  date_free : ∀ date ∈ bucket.creationDate, '<' ∉ date.toList
  beforeName_free : '<' ∉ beforeName
  afterName_free : '<' ∉ afterName
  afterDate_free : '<' ∉ afterDate
  after_free : ¬ openTag "Bucket" <:+: after

namespace BucketElement

variable (e : BucketElement)

/-- The element up to `<CreationDate>`, cut before each tag. -/
def nameBlocks : List (List Char) :=
  [openTag "Bucket" ++ e.beforeName, openTag "Name" ++ e.bucket.name.toList,
    closeTag "Name" ++ e.afterName]

/-- The date, if there is one. -/
def dateBlocks : List (List Char) :=
  match e.bucket.creationDate with
  | none => []
  | some date => [openTag "CreationDate" ++ date.toList, closeTag "CreationDate" ++ e.afterDate]

/-- The element. -/
def text : List Char := (e.nameBlocks ++ e.dateBlocks).flatten ++ closeTag "Bucket"

end BucketElement

/-- The elements after the text `lead`. -/
def listing (lead : List Char) : List BucketElement → List Char
  | [] => lead
  | e :: elements => lead ++ (e.text ++ listing e.after elements)

/-- A tag other than the pattern, and a text without tags. -/
theorem passes_of {tag tag' content : List Char} (htag : '<' ∉ tag') (hcontent : '<' ∉ content)
    (hne : ¬ tag <+: tag' ∧ ¬ tag' <+: tag) : Passes '<' tag ('<' :: (tag' ++ content)) := by
  refine ⟨tag' ++ content, rfl, ?_, fun back hpre => ?_⟩
  · intro hmem
    exact (List.mem_append.mp hmem).elim htag hcontent
  · have htail : tag <+: tag' ++ (content ++ back) := by
      rw [← List.append_assoc]
      exact (List.cons_prefix_cons.mp hpre).2
    rcases List.prefix_or_prefix_of_prefix htail (List.prefix_append _ _) with h | h
    · exact hne.1 h
    · exact hne.2 h

/-- The content of the first element with the tag. -/
theorem extractTag_eq {tag : String} {blocks : List (List Char)}
    (hblocks : ∀ block ∈ blocks, Passes '<' (tag.toList ++ ['>']) block) {content : List Char}
    (hcontent : '<' ∉ content) (back : List Char) :
    extractTag (blocks.flatten ++ (openTag tag ++ (content ++ (closeTag tag ++ back)))) tag =
      .ok (some content) := by
  have hopen : find (openTag tag)
      (blocks.flatten ++ (openTag tag ++ (content ++ (closeTag tag ++ back)))) =
        some (utf8Len blocks.flatten) := by
    rw [openTag, find_flatten hblocks, find_here (List.prefix_append _ _)]
    rfl
  have hclose : find (closeTag tag) (content ++ (closeTag tag ++ back)) =
      some (utf8Len content) := by
    rw [closeTag, find_append hcontent, find_here (List.prefix_append _ _)]
    rfl
  have hrest := sliceFrom_append (blocks.flatten ++ openTag tag)
    (content ++ (closeTag tag ++ back))
  have hslice := slice_append (blocks.flatten ++ openTag tag) content (closeTag tag ++ back)
  rw [utf8Len_append, List.append_assoc] at hrest hslice
  simp only [extractTag, hopen, bind, Except.bind, hrest, hclose, hslice]
  rfl

theorem extractTag_eq_none {tag : String} {blocks : List (List Char)}
    (hblocks : ∀ block ∈ blocks, Passes '<' (tag.toList ++ ['>']) block) :
    extractTag blocks.flatten tag = .ok none := by
  have hopen : find (openTag tag) blocks.flatten = none := by
    have hfind := find_flatten hblocks []
    rw [List.append_nil] at hfind
    rw [openTag, hfind]
    rfl
  rw [extractTag, hopen]

namespace BucketElement

variable (e : BucketElement)

/-- The blocks up to the date begin with one of three tags. -/
theorem nameBlocks_passes {tag : List Char}
    (hbucket : ¬ tag <+: "Bucket>".toList ∧ ¬ "Bucket>".toList <+: tag)
    (hname : ¬ tag <+: "Name>".toList ∧ ¬ "Name>".toList <+: tag)
    (hclose : ¬ tag <+: "/Name>".toList ∧ ¬ "/Name>".toList <+: tag) :
    ∀ block ∈ e.nameBlocks, Passes '<' tag block := by
  simp only [nameBlocks, List.forall_mem_cons]
  refine ⟨?_, ?_, ?_, List.forall_mem_nil _⟩
  · exact passes_of (by decide) e.beforeName_free hbucket
  · exact passes_of (by decide) e.name_free hname
  · exact passes_of (by decide) e.afterName_free hclose

theorem dateBlocks_passes {tag : List Char}
    (hopen : ¬ tag <+: "CreationDate>".toList ∧ ¬ "CreationDate>".toList <+: tag)
    (hclose : ¬ tag <+: "/CreationDate>".toList ∧ ¬ "/CreationDate>".toList <+: tag) :
    ∀ block ∈ e.dateBlocks, Passes '<' tag block := by
  unfold dateBlocks
  cases hdate : e.bucket.creationDate with
  | none => exact List.forall_mem_nil _
  | some date =>
    simp only [List.forall_mem_cons]
    refine ⟨?_, ?_, List.forall_mem_nil _⟩
    · exact passes_of (by decide) (e.date_free date hdate) hopen
    · exact passes_of (by decide) e.afterDate_free hclose

/-- The first closing tag ends the element. -/
theorem find_close (back : List Char) :
    find (closeTag "Bucket") (e.text ++ back) =
      some (utf8Len (e.nameBlocks ++ e.dateBlocks).flatten) := by
  have hpasses : ∀ block ∈ e.nameBlocks ++ e.dateBlocks,
      Passes '<' "/Bucket>".toList block := by
    intro block hblock
    rcases List.mem_append.mp hblock with hblock | hblock
    · exact e.nameBlocks_passes (by decide) (by decide) (by decide) block hblock
    · exact e.dateBlocks_passes (by decide) (by decide) block hblock
  have hfind := find_flatten hpasses (closeTag "Bucket" ++ back)
  have hhere : find (closeTag "Bucket") (closeTag "Bucket" ++ back) = some 0 :=
    find_here (List.prefix_append _ _)
  rw [text, List.append_assoc]
  exact hfind.trans (congrArg _ hhere)

theorem extractTag_name : extractTag e.text "Name" = .ok (some e.bucket.name.toList) := by
  have hpasses : ∀ block ∈ [openTag "Bucket" ++ e.beforeName],
      Passes '<' ("Name".toList ++ ['>']) block :=
    List.forall_mem_singleton.mpr (passes_of (by decide) e.beforeName_free (by decide))
  have hcontent := extractTag_eq hpasses e.name_free
    (e.afterName ++ (e.dateBlocks.flatten ++ closeTag "Bucket"))
  have htext : e.text = [openTag "Bucket" ++ e.beforeName].flatten ++ (openTag "Name" ++
      (e.bucket.name.toList ++ (closeTag "Name" ++
        (e.afterName ++ (e.dateBlocks.flatten ++ closeTag "Bucket"))))) := by
    simp [text, nameBlocks]
  rw [htext, hcontent]

theorem extractTag_date :
    extractTag e.text "CreationDate" = .ok (e.bucket.creationDate.map String.toList) := by
  have hpasses : ∀ block ∈ e.nameBlocks, Passes '<' ("CreationDate".toList ++ ['>']) block :=
    e.nameBlocks_passes (by decide) (by decide) (by decide)
  cases hdate : e.bucket.creationDate with
  | none =>
    have hclose : ∀ block ∈ e.nameBlocks ++ [closeTag "Bucket" ++ []],
        Passes '<' ("CreationDate".toList ++ ['>']) block := by
      intro block hblock
      rcases List.mem_append.mp hblock with hblock | hblock
      · exact hpasses block hblock
      · have hpass : Passes '<' ("CreationDate".toList ++ ['>'])
            ('<' :: ("/Bucket>".toList ++ [])) :=
          passes_of (by decide) List.not_mem_nil (by decide)
        rw [List.mem_singleton.mp hblock]
        exact hpass
    have htext : e.text = (e.nameBlocks ++ [closeTag "Bucket" ++ []]).flatten := by
      simp [text, dateBlocks, hdate]
    rw [htext, extractTag_eq_none hclose]
    rfl
  | some date =>
    have hcontent := extractTag_eq hpasses (e.date_free date hdate)
      (e.afterDate ++ closeTag "Bucket")
    have htext : e.text = e.nameBlocks.flatten ++ (openTag "CreationDate" ++ (date.toList ++
        (closeTag "CreationDate" ++ (e.afterDate ++ closeTag "Bucket")))) := by
      simp [text, dateBlocks, hdate]
    rw [htext, hcontent]
    rfl

end BucketElement

/-- The round at a text without elements and an element after it. -/
theorem round_element (front : List Char) {lead : List Char}
    (hlead : ¬ openTag "Bucket" <:+: lead) (e : BucketElement) (back : List Char) :
    round (front ++ (lead ++ (e.text ++ back))) (utf8Len front) =
      .ok (some (some e.bucket, utf8Len (front ++ (lead ++ e.text)))) := by
  obtain ⟨inner, htext⟩ : ∃ inner, e.text = openTag "Bucket" ++ inner := by
    refine ⟨e.beforeName ++ ((e.nameBlocks.tail ++ e.dateBlocks).flatten ++ closeTag "Bucket"), ?_⟩
    simp [BucketElement.text, BucketElement.nameBlocks]
  have hopen : find (openTag "Bucket") (lead ++ (e.text ++ back)) = some (utf8Len lead) := by
    rw [htext, List.append_assoc]
    exact find_free (by decide) hlead (inner ++ back)
  have hrest := sliceFrom_append (front ++ lead) (e.text ++ back)
  rw [utf8Len_append, List.append_assoc] at hrest
  have hslice := slice_append (front ++ lead) e.text back
  rw [utf8Len_append, List.append_assoc, Nat.add_assoc] at hslice
  have hstop : utf8Len front + utf8Len lead + utf8Len (e.nameBlocks ++ e.dateBlocks).flatten +
      utf8Len (closeTag "Bucket") = utf8Len front + (utf8Len lead + utf8Len e.text) := by
    rw [BucketElement.text, utf8Len_append]
    omega
  have hname : e.bucket.name.toList ≠ [] := by
    intro hnil
    exact e.name_ne (String.toList_eq_nil_iff.mp hnil)
  have hdate : (e.bucket.creationDate.map String.toList).map String.ofList =
      e.bucket.creationDate := by
    cases e.bucket.creationDate <;> simp
  simp only [round, sliceFrom_append, bind, Except.bind, hopen, hrest, e.find_close, hstop, hslice,
    e.extractTag_name, e.extractTag_date, Option.getD_some, if_pos hname, hdate,
    String.ofList_toList, utf8Len_append]
  rfl

/-- The elements are read one after another. -/
theorem parseFrom_listing (front : List Char) {lead : List Char}
    (hlead : ¬ openTag "Bucket" <:+: lead) (elements : List BucketElement) {fuel : ℕ}
    (h : (listing lead elements).length < fuel) (buckets : List BucketInfo) :
    parseFrom (front ++ listing lead elements) fuel (utf8Len front) buckets =
      some (.ok (buckets ++ elements.map BucketElement.bucket)) := by
  induction elements generalizing front lead fuel buckets with
  | nil =>
    obtain ⟨fuel, rfl⟩ : ∃ n, fuel = n + 1 := Nat.exists_eq_add_one.mpr (by omega)
    have hround : round (front ++ lead) (utf8Len front) = .ok none := by
      rw [round, sliceFrom_append]
      simp only [bind, Except.bind, find_eq_none hlead]
      rfl
    rw [listing, parseFrom, hround, List.map_nil, List.append_nil]
  | cons e elements ih =>
    obtain ⟨fuel, rfl⟩ : ∃ n, fuel = n + 1 := Nat.exists_eq_add_one.mpr (by omega)
    rw [listing, List.length_append, List.length_append] at h
    have htag : 0 < (closeTag "Bucket").length := by decide
    have htext : 0 < e.text.length := by
      rw [BucketElement.text, List.length_append]
      omega
    rw [listing, parseFrom, round_element front hlead e]
    dsimp only
    rw [← List.append_assoc lead, ← List.append_assoc front,
      ih (front ++ (lead ++ e.text)) e.after_free (by omega)]
    simp

/-- Every round is in bounds and moves on, the loop ends on every text, and it returns the
buckets of a listing in their order. -/
theorem parseListBucketsXml_spec :
    (∀ xml : String,
      (∀ pos, Reached xml.toList pos → ∃ r, round xml.toList pos = .ok r ∧
        ∀ bucket pos', r = some (bucket, pos') → pos < pos' ∧ pos' ≤ utf8Len xml.toList) ∧
      ∃ buckets, ∀ fuel > xml.toList.length, parseListBucketsXml fuel xml = some (.ok buckets)) ∧
    ∀ (lead : List Char) (elements : List BucketElement), ¬ openTag "Bucket" <:+: lead →
      ∀ fuel > (listing lead elements).length,
        parseListBucketsXml fuel (.ofList (listing lead elements)) =
          some (.ok (elements.map BucketElement.bucket)) := by
  refine ⟨fun xml => ⟨fun pos hpos => hpos.round_ok, ?_⟩, fun lead elements hlead fuel hfuel => ?_⟩
  · obtain ⟨buckets, hbuckets⟩ :=
      parseFrom_total [] xml.toList (Nat.lt_succ_self xml.toList.length) []
    exact ⟨buckets, fun fuel hfuel => parseFrom_mono hfuel hbuckets⟩
  · rw [parseListBucketsXml, String.toList_ofList]
    exact parseFrom_listing [] hlead elements hfuel []

/-- One bucket with a date and one without. -/
def runElements : List BucketElement :=
  [{ bucket := { name := "alpha", creationDate := some "2023-01-01" }
     beforeName := ['\n'], afterName := [], afterDate := ['\n'], after := ['\n']
     name_ne := by decide, name_free := by decide, date_free := by decide
     beforeName_free := by decide, afterName_free := by decide, afterDate_free := by decide
     after_free := by decide },
   { bucket := { name := "beta", creationDate := none }
     beforeName := [], afterName := [], afterDate := [], after := "</Buckets>".toList
     name_ne := by decide, name_free := by decide, date_free := by decide
     beforeName_free := by decide, afterName_free := by decide, afterDate_free := by decide
     after_free := by decide }]

theorem parseListBucketsXml_spec_run :
    parseListBucketsXml 200 (.ofList (listing "<Buckets>".toList runElements)) =
      some (.ok [⟨"alpha", some "2023-01-01"⟩, ⟨"beta", none⟩]) :=
  parseListBucketsXml_spec.2 "<Buckets>".toList runElements (by decide) 200
    (by decide +kernel)

end FreeBox.Storage
