import Dossier.Proofs.Json.Numerals
import Dossier.Proofs.Time.Instant
import Dossier.Text.Hex
import Dossier.VersionControl.Git

/-!
# The commits in a log

A log is written in a format with a separator before every commit and one after each of its fields.
The place holders of the format are filled in with the fields of the commit (`Entry.fill`), the
patch follows, and line breaks may stand around it. What is read of such a log are its commits, for
the fields have no separators in them. A patch is the text of a program, though, and may have any
character in it. A field separator there does no harm, since nothing is looked for after the
message; but where the record separator stands, the next commit is taken to begin. So a log is read
back exactly if no patch has a record separator in it (`Dossier.Git.log_read_iff`).
-/

namespace Dossier.Git

/-! ### What git writes -/

/-- A commit in a log, with the numbers of the line breaks after its message, above its patch and
below it. -/
structure Entry where
  commit : Commit
  afterMessage : Nat
  above : Nat
  below : Nat

def breaks (n : Nat) : List Char :=
  List.replicate n '\n'

namespace Entry

variable (e : Entry)

/-- **What git writes for a format**: the fields of the commit for the place holders, and for a
hexadecimal number the character it is the number of. -/
def fill : List Char → List Char
  | '%' :: 'x' :: high :: low :: rest =>
    Char.ofNat ((Text.hexValue? high).getD 0 * 16 + (Text.hexValue? low).getD 0) :: fill rest
  | '%' :: 'H' :: rest => e.commit.hash.toList ++ fill rest
  | '%' :: 'a' :: 'n' :: rest => e.commit.author.toList ++ fill rest
  | '%' :: 'a' :: 't' :: rest => (Decimal.ofInt e.commit.timestamp).toList ++ fill rest
  | '%' :: 'B' :: rest => e.commit.message.toList ++ breaks e.afterMessage ++ fill rest
  | c :: rest => c :: fill rest
  | [] => []

/-- What git writes for a commit: the format and then the patch. -/
def chars : List Char :=
  e.fill (logFormat.toList.drop "--format=".length) ++
    (breaks e.above ++ e.commit.diff.toList ++ breaks e.below)

/-- What stands between the record separator of a commit and that of the next. -/
def body : List Char :=
  e.commit.hash.toList ++ fieldSeparator ::
    (e.commit.author.toList ++ fieldSeparator ::
      ((Decimal.ofInt e.commit.timestamp).toList ++ fieldSeparator ::
        (e.commit.message.toList ++ breaks e.afterMessage ++ fieldSeparator ::
          (breaks e.above ++ e.commit.diff.toList ++ breaks e.below))))

/-- What is read of a commit: all but the issues it names. -/
def read : Commit :=
  { e.commit with issueIds := [] }

theorem chars_eq : e.chars = recordSeparator :: e.body := by
  have hformat : logFormat.toList.drop "--format=".length =
      ['%', 'x', '1', 'e', '%', 'H', '%', 'x', '1', 'f', '%', 'a', 'n', '%', 'x', '1', 'f', '%',
        'a', 't', '%', 'x', '1', 'f', '%', 'B', '%', 'x', '1', 'f'] := by
    decide +kernel
  have hrecord : Char.ofNat ((Text.hexValue? '1').getD 0 * 16 + (Text.hexValue? 'e').getD 0) =
      recordSeparator := by
    decide
  have hfield : Char.ofNat ((Text.hexValue? '1').getD 0 * 16 + (Text.hexValue? 'f').getD 0) =
      fieldSeparator := by
    decide
  rw [chars, hformat]
  simp only [fill, hrecord, hfield, body, List.cons_append, List.append_assoc, List.nil_append]

end Entry

/-- **The log of some commits**, as git writes it. -/
def logOf (entries : List Entry) : String :=
  String.ofList (entries.flatMap Entry.chars)

/-- Whether a text can be a field of a commit: nothing is trimmed off it, and there is no separator
in it. -/
structure IsField (s : String) : Prop where
  trimmed : Text.trimChars s.toList = s.toList
  noRecord : recordSeparator ∉ s.toList
  noField : fieldSeparator ∉ s.toList

/-- Whether a commit can be told from what git writes of it. -/
structure Legible (c : Commit) : Prop where
  hash : IsField c.hash
  author : IsField c.author
  message : IsField c.message
  timestamp : -Decimal.signedLimit ≤ c.timestamp ∧ c.timestamp < Decimal.signedLimit
  diffHead : c.diff.toList.head? ≠ some '\n'
  diffLast : c.diff.toList.getLast? ≠ some '\n'

instance (s : String) : Decidable (IsField s) :=
  decidable_of_iff (Text.trimChars s.toList = s.toList ∧ recordSeparator ∉ s.toList ∧
    fieldSeparator ∉ s.toList) ⟨fun ⟨h, h', h''⟩ => ⟨h, h', h''⟩, fun ⟨h, h', h''⟩ => ⟨h, h', h''⟩⟩

instance (c : Commit) : Decidable (Legible c) :=
  decidable_of_iff (IsField c.hash ∧ IsField c.author ∧ IsField c.message ∧
    (-Decimal.signedLimit ≤ c.timestamp ∧ c.timestamp < Decimal.signedLimit) ∧
      c.diff.toList.head? ≠ some '\n' ∧ c.diff.toList.getLast? ≠ some '\n')
    ⟨fun ⟨h₁, h₂, h₃, h₄, h₅, h₆⟩ => ⟨h₁, h₂, h₃, h₄, h₅, h₆⟩,
      fun ⟨h₁, h₂, h₃, h₄, h₅, h₆⟩ => ⟨h₁, h₂, h₃, h₄, h₅, h₆⟩⟩

/-! ### Parts of a record -/

theorem mem_breaks {n : Nat} {c : Char} (h : c ∈ breaks n) : c = '\n' :=
  (List.mem_replicate.mp h).2

/-- The line breaks around a text are dropped. -/
theorem dropBreaks_breaks {cs : List Char} (hhead : cs.head? ≠ some '\n')
    (hlast : cs.getLast? ≠ some '\n') (above below : Nat) :
    dropBreaks (breaks above ++ cs ++ breaks below) = cs := by
  have hbreaks : ∀ n, ∀ c ∈ breaks n, (c == '\n') = true := fun n c hc => by simp [mem_breaks hc]
  have hself : ∀ ds : List Char, ds.head? ≠ some '\n' → ds.dropWhile (· == '\n') = ds := by
    intro ds hds
    cases ds with
    | nil => rfl
    | cons d ds => exact List.dropWhile_cons_of_neg (by simpa using hds)
  rw [dropBreaks, List.append_assoc, List.dropWhile_append_of_pos (hbreaks above),
    List.dropWhile_append, hself cs hhead]
  split
  · next hempty =>
    rw [List.isEmpty_iff.mp hempty, List.dropWhile_eq_nil_iff.mpr (hbreaks below)]
    rfl
  · rw [List.reverse_append, List.dropWhile_append_of_pos (by simpa using hbreaks below),
      hself cs.reverse (by rwa [List.head?_reverse]), List.reverse_reverse]

/-- The digits of a time are its sign and digits. -/
theorem forall_mem_ofInt {p : Char → Prop} (hminus : p '-') (hdigit : ∀ c, Decimal.IsDigit c → p c)
    (i : Int) : ∀ c ∈ (Decimal.ofInt i).toList, p c := by
  intro c hc
  rw [Json.toList_ofInt, List.mem_append, Json.signChars] at hc
  rcases hc with hc | hc
  · split at hc
    · rwa [List.mem_singleton.mp hc]
    · exact absurd hc List.not_mem_nil
  · exact hdigit c ((Decimal.spells_digits _).isDigit c hc)

/-- **A time is read back.** -/
theorem int64?_ofInt {i : Int} (h : -Decimal.signedLimit ≤ i ∧ i < Decimal.signedLimit) :
    int64? (Text.trimChars (Decimal.ofInt i).toList) = some i := by
  rw [Text.trimChars_of_forall
    (forall_mem_ofInt (by decide) (fun c hc => hc.isBlank) i), Json.toList_ofInt]
  have habs : (i.natAbs : Int) = if i < 0 then -i else i := by omega
  by_cases hi : i < 0
  · rw [if_pos hi] at habs
    simp only [hi, decide_true, Json.signChars, if_true, List.singleton_append, int64?,
      Decimal.value?_digits, Option.bind_some, habs, Int.neg_neg, Decimal.signed?, if_pos h]
  · rw [if_neg hi] at habs
    -- Without a sign the first character is a digit, and not taken for one.
    obtain ⟨c, ds, heq, -⟩ := Decimal.digits_eq_cons i.natAbs
    have hc : Decimal.IsDigit c :=
      (Decimal.spells_digits i.natAbs).isDigit c (heq ▸ List.mem_cons_self)
    have hminus : c ≠ '-' := by rintro rfl; revert hc; decide
    have hplus : c ≠ '+' := by rintro rfl; revert hc; decide
    have hvalue := Decimal.value?_digits i.natAbs
    rw [decide_eq_false hi, Json.signChars, if_neg Bool.false_ne_true, List.nil_append]
    rw [heq] at hvalue ⊢
    unfold int64?
    split
    · next ds' heq' => exact absurd (List.cons.inj heq').1 hminus
    · next ds' heq' => exact absurd (List.cons.inj heq').1 hplus
    · rw [hvalue, Option.bind_some, habs, Decimal.signed?, if_pos h]

/-! ### Records -/

variable {e : Entry} {entries : List Entry}

theorem notMem_time {c : Char} (hminus : c ≠ '-') (hdigit : ¬Decimal.IsDigit c) (i : Int) :
    c ∉ (Decimal.ofInt i).toList := fun hc =>
  forall_mem_ofInt (p := (· ≠ c)) hminus.symm (fun _ hd heq => hdigit (heq ▸ hd)) i c hc rfl

theorem notMem_message {c : Char} (h : c ≠ '\n') (hc : c ∉ e.commit.message.toList) :
    c ∉ e.commit.message.toList ++ breaks e.afterMessage :=
  List.not_mem_append hc fun hb => h (mem_breaks hb)

/-- **A record is read back**, whatever the patch is. -/
theorem readRecord_body (h : Legible e.commit) :
    readRecord e.body = .ok e.read := by
  have htime : fieldSeparator ∉ (Decimal.ofInt e.commit.timestamp).toList :=
    notMem_time (by decide) (by decide) _
  have hmessage : fieldSeparator ∉ e.commit.message.toList ++ breaks e.afterMessage :=
    notMem_message (by decide) h.message.noField
  have htrimmed : Text.trimChars (e.commit.message.toList ++ breaks e.afterMessage) =
      e.commit.message.toList := by
    rw [Text.trimChars_append, h.message.trimmed]
    intro c hc
    rw [mem_breaks hc]
    decide
  simp only [readRecord, Entry.body, field?, Text.cut?_append h.hash.noField,
    Text.cut?_append h.author.noField, Text.cut?_append htime, Text.cut?_append hmessage,
    Option.bind_eq_bind, Option.bind_some, Option.getD_some, Option.pure_def, commit,
    Entry.read, int64?_ofInt h.timestamp, h.hash.trimmed, h.author.trimmed, htrimmed,
    dropBreaks_breaks h.diffHead h.diffLast, String.ofList_toList]

/-- A record is not blank, since separators are not. -/
theorem all_isBlank_body (e : Entry) : e.body.all Text.isBlank = false := by
  rw [List.all_eq_false]
  exact ⟨fieldSeparator, by simp [Entry.body], by decide⟩

theorem recordSeparator_notMem_body (h : Legible e.commit)
    (hdiff : recordSeparator ∉ e.commit.diff.toList) : recordSeparator ∉ e.body := by
  have hbreaks : ∀ n, recordSeparator ∉ breaks n := fun n hc =>
    absurd (mem_breaks hc) (by decide)
  have htime : recordSeparator ∉ (Decimal.ofInt e.commit.timestamp).toList :=
    notMem_time (by decide) (by decide) _
  have hne : recordSeparator ≠ fieldSeparator := by decide
  simp only [Entry.body, List.mem_append, List.mem_cons, not_or]
  exact ⟨h.hash.noRecord, hne, h.author.noRecord, hne, htime, hne,
    ⟨h.message.noRecord, hbreaks _⟩, hne, ⟨hbreaks _, hdiff⟩, hbreaks _⟩

/-! ### Logs -/

/-- A log is split into its records if no record has a separator in it. -/
theorem splitAt_logOf (h : ∀ e ∈ entries, recordSeparator ∉ e.body) :
    Text.splitAt (· == recordSeparator) (logOf entries).toList = [] :: entries.map Entry.body := by
  rw [logOf, String.toList_ofList]
  -- The separators stand before the records, so the first record is read up to the second of them.
  suffices hafter : ∀ front : List Char, recordSeparator ∉ front →
      Text.splitAt (· == recordSeparator) (front ++ entries.flatMap Entry.chars) =
        front :: entries.map Entry.body from hafter [] List.not_mem_nil
  induction entries with
  | nil =>
    intro front hfront
    rw [List.flatMap_nil, List.append_nil]
    exact Text.splitAt_of_forall fun c hc => beq_false_of_ne (ne_of_mem_of_not_mem hc hfront)
  | cons e entries ih =>
    intro front hfront
    obtain ⟨he, hentries⟩ := List.forall_mem_cons.mp h
    have halone : Text.splitAt (· == recordSeparator) front = [front] :=
      Text.splitAt_of_forall fun c hc => beq_false_of_ne (ne_of_mem_of_not_mem hc hfront)
    rw [List.flatMap_cons, Entry.chars_eq, List.cons_append, Text.splitAt_append (by simp), halone,
      ih hentries e.body he]
    rfl

theorem mapM_readRecord (h : ∀ e ∈ entries, Legible e.commit) :
    (entries.map Entry.body).mapM readRecord = .ok (entries.map Entry.read) := by
  induction entries with
  | nil => rfl
  | cons e entries ih =>
    obtain ⟨he, hentries⟩ := List.forall_mem_cons.mp h
    rw [List.map_cons, List.mapM_cons, readRecord_body he, ih hentries]
    rfl

theorem dropBreaks_subset (cs : List Char) : dropBreaks cs ⊆ cs := by
  intro c hc
  rw [dropBreaks, List.mem_reverse] at hc
  have hreverse := (List.dropWhile_suffix _).subset hc
  exact (List.dropWhile_suffix _).subset (List.mem_reverse.mp hreverse)

theorem subset_of_field? {cs field rest : List Char} (h : field? cs = some (field, rest)) :
    rest ⊆ cs := by
  rw [Text.eq_append_of_cut? h]
  exact List.subset_append_right _ _

theorem diff_of_commit {hash author time message patch : List Char} {c : Commit}
    (h : commit hash author time message patch = .ok c) :
    c.diff = String.ofList (dropBreaks patch) := by
  rw [commit] at h
  split at h
  · cases h
  · obtain rfl := Except.ok.inj h
    rfl

/-- The patch of a record that is read is a part of the record. -/
theorem subset_of_readRecord {record : List Char} {c : Commit} (h : readRecord record = .ok c) :
    c.diff.toList ⊆ record := by
  obtain ⟨patch, hpatch, hdiff⟩ :
      ∃ patch, patch ⊆ record ∧ c.diff = String.ofList (dropBreaks patch) := by
    rw [readRecord] at h
    rcases hhash : field? record with _ | ⟨hash, afterHash⟩
    · rw [hhash] at h
      cases h
    rcases hauthor : field? afterHash with _ | ⟨author, afterAuthor⟩
    · simp only [hhash, hauthor, Option.bind_eq_bind, Option.bind_some, Option.bind_none] at h
      cases h
    rcases htime : field? afterAuthor with _ | ⟨time, afterTime⟩
    · simp only [hhash, hauthor, htime, Option.bind_eq_bind, Option.bind_some,
        Option.bind_none] at h
      cases h
    simp only [hhash, hauthor, htime, Option.bind_eq_bind, Option.bind_some] at h
    have hafter : afterTime ⊆ record :=
      List.Subset.trans (subset_of_field? htime)
        (List.Subset.trans (subset_of_field? hauthor) (subset_of_field? hhash))
    refine ⟨_, ?_, diff_of_commit h⟩
    -- The message ends the record when no separator follows it, and the patch is empty.
    rcases hmessage : field? afterTime with _ | ⟨message, patch⟩
    · exact List.nil_subset _
    · exact List.Subset.trans (subset_of_field? hmessage) hafter
  rw [hdiff, String.toList_ofList]
  exact List.Subset.trans (dropBreaks_subset patch) hpatch

/-- A list that is read item by item has only what is read of an item. -/
theorem exists_of_mapM_readRecord {records : List (List Char)} {commits : List Commit}
    (h : records.mapM readRecord = .ok commits) :
    ∀ c ∈ commits, ∃ record ∈ records, readRecord record = .ok c := by
  induction records generalizing commits with
  | nil =>
    obtain rfl := Except.ok.inj h
    simp
  | cons record records ih =>
    rw [List.mapM_cons] at h
    rcases hfirst : readRecord record with e | first
    · rw [hfirst] at h
      cases h
    rcases hrest : records.mapM readRecord with e | rest
    · rw [hfirst, hrest] at h
      cases h
    rw [hfirst, hrest] at h
    obtain rfl := Except.ok.inj h
    refine List.forall_mem_cons.mpr ⟨⟨record, List.mem_cons_self, hfirst⟩, fun c hc => ?_⟩
    obtain ⟨r, hr, hread⟩ := ih hrest c hc
    exact ⟨r, List.mem_cons_of_mem _ hr, hread⟩

/-- No patch that is read of a log has a record separator in it. -/
theorem recordSeparator_notMem_diff {log : String} {commits : List Commit}
    (h : readLog log = .ok commits) : ∀ c ∈ commits, recordSeparator ∉ c.diff.toList := by
  intro c hc hmem
  obtain ⟨record, hrecord, hread⟩ := exists_of_mapM_readRecord h c hc
  have hpiece := Text.forall_mem_splitAt _ _ record (List.mem_of_mem_filter hrecord)
    recordSeparator (subset_of_readRecord hread hmem)
  simp at hpiece

/-- **A log is read back exactly if no patch has a record separator in it.** -/
theorem log_read_iff (h : ∀ e ∈ entries, Legible e.commit) :
    readLog (logOf entries) = .ok (entries.map Entry.read) ↔
      ∀ e ∈ entries, recordSeparator ∉ e.commit.diff.toList := by
  constructor
  · intro hread e he
    exact recordSeparator_notMem_diff hread e.read (List.mem_map_of_mem he)
  · intro hdiff
    have hbodies : ∀ e ∈ entries, recordSeparator ∉ e.body := fun e he =>
      recordSeparator_notMem_body (h e he) (hdiff e he)
    rw [readLog, splitAt_logOf hbodies, List.filter_cons_of_neg (by simp),
      List.filter_eq_self.mpr, mapM_readRecord h]
    refine List.forall_mem_map.mpr fun e _ => ?_
    rw [all_isBlank_body, Bool.not_false]

/-- A patch with a field separator in it, and line breaks around it. -/
def untroubled : Entry where
  commit :=
    { hash := "aaa111", message := "Fix bounds", author := "Ada", timestamp := -1,
      issueIds := ["#1"]
      diff := "@@ -1 +1 @@\n-a\u001f\n+b" }
  afterMessage := 1
  above := 2
  below := 1

theorem log_read_iff_untroubled : (∀ e ∈ [untroubled], Legible e.commit) ∧
    readLog (logOf [untroubled]) = .ok [untroubled.read] := by
  have hlegible : ∀ e ∈ [untroubled], Legible e.commit := by decide +kernel
  exact ⟨hlegible, (log_read_iff hlegible).mpr (by decide +kernel)⟩

/-- A patch that puts a record separator into the text of a program. -/
def separating : Entry where
  commit :=
    { hash := "aaa111", message := "Use a record separator", author := "Ada",
      timestamp := 1700000000, issueIds := []
      diff := "-    return \"\\n\".join(rows)\n+    return \"\u001e\".join(rows)" }
  afterMessage := 0
  above := 0
  below := 0

/-- **A log that is not read**: what follows a record separator in a patch is taken for a commit,
and has too few fields. -/
theorem separating_not_read : (∀ e ∈ [separating], Legible e.commit) ∧
    readLog (logOf [separating]) =
      .error (.invalidOutput "truncated log record: \".join(rows)") := by
  decide +kernel

end Dossier.Git
