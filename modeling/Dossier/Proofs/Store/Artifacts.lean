import Dossier.Proofs.Files.Names
import Dossier.Store.Directory
import Mathlib.Data.List.Basic
import Mathlib.Logic.Function.Basic

/-!
# The stores of artifacts agree

A store in memory finds an artifact by its key, a directory by the path of its key. Two keys never
have the same path, since whatever is escaped in a component can be read back from it
(`Dossier.ArtifactKey.unescape_escape`), and no path leads out of the directory or into another one,
since all its components are names of entries (`Dossier.ArtifactKey.isEntryName_of_mem_names`). So
both are the same store to whoever calls them: after the same calls they give the same answers, and
under a key there is what was put there first (`Dossier.artifacts_agree`).

Files are assumed to be kept under any such name: the answers are told for keys whose paths the file
system does not refuse.
-/

namespace Dossier

open FileNode (IsEntryName)

namespace ArtifactKey

variable {k k' : ArtifactKey} {c : Char}

/-! ### What is escaped can be read back -/

/-- The characters that are escaped wherever they stand. -/
def reserved : List Char :=
  ['%', '/', '\\', '#', ':']

/-- A text with its escapes read: two hexadecimal digits after a percent sign stand for the
character of that number. -/
def unescape : List Char → List Char
  | '%' :: high :: low :: rest =>
    Char.ofNat ((Text.hexValue? high).getD 0 * 16 + (Text.hexValue? low).getD 0) :: unescape rest
  | c :: rest => c :: unescape rest
  | [] => []

theorem unescape_cons (h : c ≠ '%') (rest : List Char) :
    unescape (c :: rest) = c :: unescape rest := by
  rw [unescape]
  rintro _ _ _ rfl
  exact absurd rfl h

theorem escapeChar_of_not_mem (h : c ∉ reserved) : escapeChar c = [c] := by
  simp only [reserved, List.mem_cons, List.not_mem_nil, or_false, not_or] at h
  simp [escapeChar, h]

theorem unescape_escapeChar (c : Char) (rest : List Char) :
    unescape (escapeChar c ++ rest) = c :: unescape rest := by
  by_cases h : c ∈ reserved
  · simp only [reserved, List.mem_cons, List.not_mem_nil, or_false] at h
    rcases h with rfl | rfl | rfl | rfl | rfl <;> rfl
  · have hpercent : c ≠ '%' := (ne_of_mem_of_not_mem List.mem_cons_self h).symm
    rw [escapeChar_of_not_mem h, List.singleton_append, unescape_cons hpercent]

theorem unescape_flatMap (s : List Char) : unescape (s.flatMap escapeChar) = s := by
  induction s with
  | nil => rfl
  | cons c s ih => rw [List.flatMap_cons, unescape_escapeChar, ih]

/-- **What is escaped can be read back**, the dots that stand alone as well. -/
theorem unescape_escape (s : List Char) : unescape (escape s) = s := by
  have hback := unescape_flatMap s
  rw [escape]
  split
  · next hdot =>
    rw [eq_of_beq hdot] at hback
    rw [← hback]
    rfl
  · split
    · next hdots =>
      rw [eq_of_beq hdots] at hback
      rw [← hback]
      rfl
    · exact hback

/-- Texts with the same component are the same. -/
theorem component_injective : Function.Injective component := fun _ _ h =>
  String.toList_inj.mp (Function.LeftInverse.injective unescape_escape (String.ofList_inj.mp h))

/-! ### Components are names of entries -/

theorem slash_not_mem_escapeChar (c : Char) : '/' ∉ escapeChar c := by
  by_cases h : c ∈ reserved
  · simp only [reserved, List.mem_cons, List.not_mem_nil, or_false] at h
    rcases h with rfl | rfl | rfl | rfl | rfl <;> decide
  · have hslash : '/' ≠ c := ne_of_mem_of_not_mem (by decide) h
    rw [escapeChar_of_not_mem h, List.mem_singleton]
    exact hslash

theorem slash_not_mem_escape (s : List Char) : '/' ∉ escape s := by
  rw [escape]
  split
  · decide
  · split
    · decide
    · simp only [List.mem_flatMap, not_exists, not_and]
      exact fun c _ => slash_not_mem_escapeChar c

/-- What is escaped is no dots alone. -/
theorem escape_ne_dots (s : List Char) : escape s ≠ ['.'] ∧ escape s ≠ ['.', '.'] := by
  rw [escape]
  split
  · decide
  · next hdot =>
    split
    · decide
    · next hdots => exact ⟨fun h => hdot (beq_iff_eq.mpr h), fun h => hdots (beq_iff_eq.mpr h)⟩

/-- **A component is the name of an entry**, whatever it is made of. -/
theorem isEntryName_component {s : String} (h : s ≠ "") : IsEntryName (component s) where
  nonempty hempty := by
    have hescape : escape s.toList = [] := by
      rw [← String.toList_ofList (l := escape s.toList)]
      exact congrArg String.toList hempty
    have hback := unescape_escape s.toList
    rw [hescape] at hback
    exact h (String.toList_inj.mp hback.symm)
  notDot hdot := (escape_ne_dots s.toList).1 (String.ofList_inj.mp hdot)
  notUp hdots := (escape_ne_dots s.toList).2 (String.ofList_inj.mp hdots)
  noSlash := by
    rw [component, String.toList_ofList]
    exact slash_not_mem_escape s.toList

/-- A digest is written in hexadecimal digits. -/
theorem exists_of_mem_hex {content : List UInt8} (h : c ∈ Sha256.hex content) :
    ∃ n < 16, c = Text.hexDigit n := by
  rw [Sha256.hex, List.mem_flatMap] at h
  obtain ⟨w, -, hw⟩ := h
  obtain ⟨shift, -, rfl⟩ := List.mem_map.mp hw
  exact ⟨_, Nat.mod_lt _ (by decide), rfl⟩

/-- A digest is the name of an entry. -/
theorem isEntryName_hex (content : List UInt8) :
    IsEntryName (String.ofList (Sha256.hex content)) := by
  have hdigits : ∀ c ∈ Sha256.hex content, c ≠ '.' ∧ c ≠ '/' := by
    have hall : ∀ n < 16, Text.hexDigit n ≠ '.' ∧ Text.hexDigit n ≠ '/' := by decide
    intro c hc
    obtain ⟨n, hn, rfl⟩ := exists_of_mem_hex hc
    exact hall n hn
  have hdots : ∀ n, Sha256.hex content ≠ '.' :: List.replicate n '.' := by
    intro n h
    exact (hdigits '.' (h ▸ List.mem_cons_self)).1 rfl
  exact
    { nonempty := fun h => absurd (String.ofList_inj.mp h) (List.cons_ne_nil _ _)
      notDot := fun h => hdots 0 (String.ofList_inj.mp h)
      notUp := fun h => hdots 1 (String.ofList_inj.mp h)
      noSlash := by
        rw [String.toList_ofList]
        exact fun h => (hdigits '/' h).2 rfl }

theorem length_hex (content : List UInt8) : (Sha256.hex content).length = 64 :=
  rfl

/-- **Whether a key is one of some content**, though not necessarily of the content that is put
under it: its repository and its function have names, and its identifier is a digest. -/
structure Proper (k : ArtifactKey) : Prop where
  repositoryId : k.repositoryId ≠ ""
  functionKey : k.functionKey ≠ ""
  identifier : ∃ content, k.identifier = String.ofList (Sha256.hex content)

/-- The names that lead to the artifact of a key. -/
def names (k : ArtifactKey) : List String :=
  [component k.repositoryId, k.kind.name, component k.functionKey, k.identifier]

theorem path_eq_joinNames (k : ArtifactKey) : k.path = Listing.joinNames k.names := by
  rw [path, names, Listing.joinNames]
  simp [String.join_cons, String.append_assoc]

theorem isEntryName_of_mem_names (h : k.Proper) : ∀ name ∈ k.names, IsEntryName name := by
  obtain ⟨content, hcontent⟩ := h.identifier
  have hkind : IsEntryName k.kind.name := by
    cases k.kind <;> exact ⟨by decide, by decide, by decide, by decide⟩
  simp only [names, List.forall_mem_cons]
  exact ⟨isEntryName_component h.repositoryId, hkind, isEntryName_component h.functionKey,
    hcontent ▸ isEntryName_hex content, List.forall_mem_nil _⟩

theorem name_injective : Function.Injective ArtifactKind.name := by
  rintro (_ | _) (_ | _) h
  · rfl
  · exact absurd h (by decide)
  · exact absurd h (by decide)
  · rfl

/-- **Keys with the same path are the same.** -/
theorem eq_of_path_eq (h : k.Proper) (h' : k'.Proper) (heq : k.path = k'.path) : k = k' := by
  rw [path_eq_joinNames, path_eq_joinNames] at heq
  have hnames := Listing.joinNames_inj (List.cons_ne_nil _ _) (List.cons_ne_nil _ _)
    (fun name hname => (isEntryName_of_mem_names h name hname).noSlash)
    (fun name hname => (isEntryName_of_mem_names h' name hname).noSlash) heq
  simp only [List.cons.injEq, and_true] at hnames
  obtain ⟨hrepository, hkind, hfunction, hidentifier⟩ := hnames
  cases k
  cases k'
  rw [mk.injEq]
  exact ⟨component_injective hrepository, name_injective hkind, component_injective hfunction,
    hidentifier⟩

end ArtifactKey

/-! ### Files of a directory -/

namespace ArtifactDirectory

variable {d d' : ArtifactDirectory} {k k' : ArtifactKey} {source target file other : String}
  {content : List UInt8}

/-- **What is found after a file is written** while others are taken away. -/
theorem read?_replace (d : ArtifactDirectory) (file other : String) (content : List UInt8)
    (keep : String → Bool) :
    read? { d with files := (file, content) :: d.files.filter fun f => keep f.1 } other =
      if file = other then some content else if keep other then d.read? other else none := by
  rw [read?, List.find?_cons]
  by_cases hfile : file = other
  · simp [hfile]
  rw [if_neg hfile, beq_false_of_ne hfile]
  dsimp only
  -- Of the files that are looked at, only those with the other name matter.
  have hpred : (fun f : String × List UInt8 => decide (keep f.1 = true ∧ (f.1 == other) = true)) =
      fun f => keep other && f.1 == other := by
    funext f
    by_cases hf : f.1 = other <;> simp [hf]
  rw [List.find?_filter, hpred]
  cases keep other <;> simp [read?]

theorem read?_write (d : ArtifactDirectory) (file other : String) (content : List UInt8) :
    (d.write file content).read? other = if file = other then some content else d.read? other := by
  rw [write, read?_replace d file other content fun name => name != file]
  by_cases h : file = other
  · rw [if_pos h, if_pos h]
  · rw [if_neg h, if_neg h, if_pos (bne_iff_ne.mpr (Ne.symm h))]

/-- What is moved is found in its new place only. -/
theorem read?_of_move? (h : d.move? source target = some d') (other : String) :
    d'.read? other =
      if target = other then d.read? source
      else if source = other then none else d.read? other := by
  obtain ⟨content, hcontent, rfl⟩ := Option.map_eq_some_iff.mp h
  rw [read?_replace d target other content fun name => name != source && name != target, hcontent]
  by_cases htarget : target = other
  · rw [if_pos htarget, if_pos htarget]
  · rw [if_neg htarget, if_neg htarget]
    by_cases hsource : source = other
    · simp [hsource]
    · simp [hsource, Ne.symm hsource, Ne.symm htarget]

/-- A file that is there can be moved. -/
theorem exists_move? (h : d.read? source = some content) (target : String) :
    ∃ d', d.move? source target = some d' :=
  ⟨_, congrArg (Option.map _) h⟩

theorem obstacle_of_move? (h : d.move? source target = some d') : d'.obstacle = d.obstacle := by
  obtain ⟨content, -, rfl⟩ := Option.map_eq_some_iff.mp h
  rfl

/-- A text has as many bytes as characters if each of them has one. -/
theorem utf8ByteSize_ofList {cs : List Char} (h : ∀ c ∈ cs, c.utf8Size = 1) :
    (String.ofList cs).utf8ByteSize = cs.length := by
  induction cs with
  | nil => rfl
  | cons c cs ih =>
    obtain ⟨hc, hcs⟩ := List.forall_mem_cons.mp h
    rw [String.ofList_cons, String.utf8ByteSize_append, String.utf8ByteSize_singleton, hc, ih hcs,
      List.length_cons, Nat.add_comm]

/-- Whether a file system takes a name: it has no zero characters and is not too long. -/
structure Takes (name : String) : Prop where
  noNull : '\x00' ∉ name.toList
  short : name.utf8ByteSize ≤ 255

theorem takes_ofList {cs : List Char} (h : (cs.all fun c => c != '\x00' && c.utf8Size == 1) = true)
    (hlength : cs.length ≤ 255) : Takes (String.ofList cs) := by
  simp only [List.all_eq_true, Bool.and_eq_true, bne_iff_ne, beq_iff_eq] at h
  refine ⟨?_, ?_⟩
  · rw [String.toList_ofList]
    exact fun hnull => (h '\x00' hnull).1 rfl
  · rw [utf8ByteSize_ofList fun c hc => (h c hc).2]
    exact hlength

theorem pathFault?_joinNames {names : List String} (hne : names ≠ [])
    (hslash : ∀ name ∈ names, '/' ∉ name.toList) (h : ∀ name ∈ names, Takes name) :
    pathFault? (Listing.joinNames names) = none := by
  have hnull : ¬(Listing.joinNames names).toList.contains '\x00' = true := by
    rw [List.contains_iff_mem]
    exact Listing.not_mem_joinNames (by decide) fun name hname => (h name hname).noNull
  have hshort : ¬names.any Place.isTooLong = true := by
    simp only [List.any_eq_true, Place.isTooLong, decide_eq_true_eq, not_exists, not_and,
      Nat.not_lt]
    exact fun name hname => (h name hname).short
  rw [pathFault?, if_neg hnull, Listing.map_splitAt_joinNames hne hslash, if_neg hshort]

/-- **The file of a key can be kept** if the names of its repository and its function can. -/
theorem pathFault?_fileOf (h : k.Proper)
    (hrepository : Takes (ArtifactKey.component k.repositoryId))
    (hfunction : Takes (ArtifactKey.component k.functionKey)) : pathFault? (fileOf k) = none := by
  obtain ⟨content, hcontent⟩ := h.identifier
  have hfile : fileOf k = Listing.joinNames [ArtifactKey.component k.repositoryId, k.kind.name,
      ArtifactKey.component k.functionKey,
      String.ofList (Sha256.hex content ++ ".zst".toList)] := by
    rw [fileOf, ArtifactKey.path_eq_joinNames, ArtifactKey.names, hcontent]
    simp [Listing.joinNames, String.ofList_append, String.append_assoc]
  have hkind : IsEntryName k.kind.name ∧ Takes k.kind.name := by
    cases k.kind <;> exact ⟨⟨by decide, by decide, by decide, by decide⟩, by decide, by decide⟩
  -- The last name is a digest with its ending, which is plain whatever the identifier is.
  have hdigits : ∀ c ∈ Sha256.hex content ++ ".zst".toList,
      c ≠ '/' ∧ (c != '\x00' && c.utf8Size == 1) = true := by
    have hall : ∀ n < 16, Text.hexDigit n ≠ '/' ∧
        (Text.hexDigit n != '\x00' && (Text.hexDigit n).utf8Size == 1) = true := by decide
    intro c hc
    rcases List.mem_append.mp hc with hc | hc
    · obtain ⟨n, hn, rfl⟩ := ArtifactKey.exists_of_mem_hex hc
      exact hall n hn
    · have hending : (".zst".toList.all fun c =>
          c != '/' && (c != '\x00' && c.utf8Size == 1)) = true := by decide
      have hplain := List.all_eq_true.mp hending c hc
      rw [Bool.and_eq_true, bne_iff_ne] at hplain
      exact hplain
  rw [hfile]
  refine pathFault?_joinNames (List.cons_ne_nil _ _) ?_ ?_
  · simp only [List.forall_mem_cons, String.toList_ofList]
    exact ⟨(ArtifactKey.isEntryName_component h.repositoryId).noSlash, hkind.1.noSlash,
      (ArtifactKey.isEntryName_component h.functionKey).noSlash, fun hc => (hdigits _ hc).1 rfl,
      List.forall_mem_nil _⟩
  · simp only [List.forall_mem_cons]
    exact ⟨hrepository, hkind.2, hfunction, takes_ofList (List.all_eq_true.mpr fun c hc =>
      (hdigits c hc).2) (by simp [ArtifactKey.length_hex]), List.forall_mem_nil _⟩

/-- No file is the draft of another. -/
theorem draftOf_ne_fileOf (k k' : ArtifactKey) : draftOf k ≠ fileOf k' := by
  intro h
  have hlast := congrArg (fun s : String => s.toList.getLast?) h
  simp [draftOf, fileOf] at hlast

theorem fileOf_inj : fileOf k = fileOf k' ↔ k.path = k'.path := by
  rw [fileOf, fileOf, ← String.toList_inj, String.toList_append, String.toList_append,
    List.append_cancel_right_eq, String.toList_inj]

/-- **What a content that is put changes**: it is there if nothing was, and everything else stays.
-/
theorem exists_put (hobstacle : d.obstacle = none) (hfault : pathFault? (fileOf k) = none)
    (content : List UInt8) : ∃ d', d.put k content = .ok d' ∧ d'.obstacle = none ∧
      ∀ k', d'.read? (fileOf k') =
        (d.read? (fileOf k')).or (if fileOf k = fileOf k' then some content else none) := by
  rw [put]
  by_cases hthere : (d.read? (fileOf k)).isSome = true
  · rw [if_pos hthere]
    refine ⟨d, rfl, hobstacle, fun k' => ?_⟩
    obtain ⟨old, hold⟩ := Option.isSome_iff_exists.mp hthere
    split
    · next heq => rw [← heq, hold, Option.some_or]
    · rw [Option.or_none]
  · have hmissing : d.read? (fileOf k) = none := by simpa using hthere
    have hdraft : (d.write (draftOf k) content).read? (draftOf k) = some content := by
      rw [read?_write, if_pos rfl]
    obtain ⟨d', hmove⟩ := exists_move? hdraft (fileOf k)
    rw [if_neg hthere, hobstacle, hfault]
    refine ⟨d', by simp [hmove], (obstacle_of_move? hmove).trans hobstacle, fun k' => ?_⟩
    rw [read?_of_move? hmove, hdraft, if_neg (draftOf_ne_fileOf k k'),
      read?_write, if_neg (draftOf_ne_fileOf k k')]
    split
    · next heq => rw [← heq, hmissing, Option.none_or]
    · rw [Option.or_none]

end ArtifactDirectory

/-! ### Calls and their answers -/

/-- A call of a store of artifacts. -/
inductive ArtifactCall where
  | put (key : ArtifactKey) (content : List UInt8)
  | get (key : ArtifactKey)

/-- What comes back from a call. -/
inductive ArtifactAnswer where
  | put (reply : Reply StoreError Unit)
  | get (reply : Reply StoreError (Option (List UInt8)))

/-- What was put first under a key. -/
def first? (log : List (ArtifactKey × List UInt8)) (k : ArtifactKey) : Option (List UInt8) :=
  (log.find? fun e => e.1 == k).map Prod.snd

theorem first?_concat (log : List (ArtifactKey × List UInt8)) (k k' : ArtifactKey)
    (content : List UInt8) : first? (log ++ [(k, content)]) k' =
      (first? log k').or (if k = k' then some content else none) := by
  rw [first?, first?, List.find?_append, List.find?_singleton]
  cases log.find? fun e => e.1 == k' with
  | some e => rfl
  | none => by_cases h : k = k' <;> simp [h]

namespace ArtifactCall

/-- The key of a call. -/
def key : ArtifactCall → ArtifactKey
  | put k _ => k
  | get k => k

variable {σ : Type} [ArtifactStore σ]

/-- What a call makes of a store, and what comes back. -/
def run (s : σ) : ArtifactCall → σ × ArtifactAnswer
  | put k content => ((ArtifactStore.put s k content).1, .put (ArtifactStore.put s k content).2)
  | get k => (s, .get (ArtifactStore.get s k))

/-- **What comes back from calls** that are made one after another. -/
def answers (s : σ) : List ArtifactCall → List ArtifactAnswer
  | [] => []
  | call :: calls => (call.run s).2 :: answers (call.run s).1 calls

/-- What has been put after a call, in order. -/
def extend (log : List (ArtifactKey × List UInt8)) :
    ArtifactCall → List (ArtifactKey × List UInt8)
  | put k content => log ++ [(k, content)]
  | get _ => log

/-- **Whether an answer to a call is the right one**, given what was put before. -/
def Answered (log : List (ArtifactKey × List UInt8)) : ArtifactCall → ArtifactAnswer → Prop
  | put _ _, .put reply => reply = .answer ()
  | get k, .get reply => reply = .answer (first? log k)
  | _, _ => False

/-- Whether every call has the right answer. -/
def AllAnswered :
    List (ArtifactKey × List UInt8) → List ArtifactCall → List ArtifactAnswer → Prop
  | _, [], [] => True
  | log, call :: calls, answer :: answers =>
    call.Answered log answer ∧ AllAnswered (call.extend log) calls answers
  | _, _, _ => False

/-- Whether a call is about a proper key with a path that the file system takes. -/
structure Allowed (call : ArtifactCall) : Prop where
  proper : call.key.Proper
  stored : ArtifactDirectory.pathFault? (ArtifactDirectory.fileOf call.key) = none

end ArtifactCall

/-! ### The simulation -/

theorem MemoryArtifacts.get?_put (s : MemoryArtifacts) (k k' : ArtifactKey) (content : List UInt8) :
    (s.put k content).get? k' =
      (s.get? k').or (if k = k' then some content else none) := by
  rw [put]
  by_cases hthere : (s.get? k).isSome = true
  · rw [if_pos hthere]
    obtain ⟨old, hold⟩ := Option.isSome_iff_exists.mp hthere
    split
    · next heq => rw [← heq, hold, Option.some_or]
    · rw [Option.or_none]
  · rw [if_neg hthere]
    exact first?_concat s.entries k k' content

/-- **Whether memory and a directory hold** what has been put. -/
structure Held (log : List (ArtifactKey × List UInt8)) (s : MemoryArtifacts)
    (d : ArtifactDirectory) : Prop where
  reachable : d.obstacle = none
  memory : ∀ k, s.get? k = first? log k
  files : ∀ k, k.Proper → d.read? (ArtifactDirectory.fileOf k) = first? log k

namespace Held

variable {log : List (ArtifactKey × List UInt8)} {s : MemoryArtifacts} {d : ArtifactDirectory}
  {call : ArtifactCall} {k : ArtifactKey}

theorem empty : Held [] .empty .empty :=
  ⟨rfl, fun _ => rfl, fun _ _ => rfl⟩

/-- **What is put is held by both.** -/
theorem put (h : Held log s d) (hproper : k.Proper)
    (hstored : ArtifactDirectory.pathFault? (ArtifactDirectory.fileOf k) = none)
    (content : List UInt8) :
    ∃ d', d.put k content = .ok d' ∧ Held (log ++ [(k, content)]) (s.put k content) d' := by
  obtain ⟨d', hput, hreachable, hfiles⟩ := ArtifactDirectory.exists_put h.reachable hstored content
  refine ⟨d', hput, hreachable, fun k' => ?_, fun k' hk' => ?_⟩
  · rw [MemoryArtifacts.get?_put, first?_concat, h.memory]
  · -- The files of proper keys are told apart like the keys.
    have hsame : ArtifactDirectory.fileOf k = ArtifactDirectory.fileOf k' ↔ k = k' := by
      rw [ArtifactDirectory.fileOf_inj]
      exact ⟨ArtifactKey.eq_of_path_eq hproper hk', congrArg ArtifactKey.path⟩
    rw [hfiles k', h.files k' hk', first?_concat]
    simp only [hsame]

theorem get_eq (h : Held log s d) (hproper : k.Proper)
    (hstored : ArtifactDirectory.pathFault? (ArtifactDirectory.fileOf k) = none) :
    d.get k = .ok (first? log k) := by
  rw [ArtifactDirectory.get, hstored]
  exact congrArg Except.ok (h.files k hproper)

/-- **Every call has the same answer in both stores**, the right one, and leaves both with the same
artifacts. -/
theorem step (h : Held log s d) (hcall : call.Allowed) :
    (call.run s).2 = (call.run d).2 ∧ call.Answered log (call.run s).2 ∧
      Held (call.extend log) (call.run s).1 (call.run d).1 := by
  cases call with
  | put k content =>
    obtain ⟨d', hput, hheld⟩ := h.put hcall.proper hcall.stored content
    have hrun : (ArtifactCall.put k content).run d = (d', .put (.answer ())) := by
      simp only [ArtifactCall.key] at hput
      simp only [ArtifactCall.run, ArtifactStore.put, hput]
    rw [hrun]
    exact ⟨rfl, rfl, hheld⟩
  | get k =>
    have hget := h.get_eq hcall.proper hcall.stored
    have hrun : (ArtifactCall.get k).run d = (d, .get (.answer (first? log k))) := by
      simp only [ArtifactCall.key] at hget
      simp only [ArtifactCall.run, ArtifactStore.get, hget]
    have hmemory : ArtifactStore.get s k = .answer (first? log k) :=
      congrArg Reply.answer (h.memory k)
    rw [hrun, ArtifactCall.run, hmemory]
    exact ⟨rfl, rfl, h⟩

/-- All calls have the same answers, and the right ones. -/
theorem answers_eq (h : Held log s d) {calls : List ArtifactCall}
    (hcalls : ∀ call ∈ calls, call.Allowed) :
    ArtifactCall.answers s calls = ArtifactCall.answers d calls ∧
      ArtifactCall.AllAnswered log calls (ArtifactCall.answers s calls) := by
  induction calls generalizing log s d with
  | nil => exact ⟨rfl, trivial⟩
  | cons call calls ih =>
    obtain ⟨hcall, hrest⟩ := List.forall_mem_cons.mp hcalls
    obtain ⟨hsame, hright, hnext⟩ := h.step hcall
    obtain ⟨hsame', hright'⟩ := ih hnext hrest
    exact ⟨by rw [ArtifactCall.answers, ArtifactCall.answers, hsame, hsame'], hright, hright'⟩

end Held

/-- **The stores of artifacts agree.** The path of a proper key has four components, each of them
the name of an entry, and no other proper key has the same path. So whatever is put and asked for
under such keys, a new store in memory and a new directory give the same answers, and the right
ones: what was put first under the very key, or nothing. -/
theorem artifacts_agree :
    (∀ k : ArtifactKey, k.Proper → ∃ repository kind function identifier,
      k.path = repository ++ "/" ++ kind ++ "/" ++ function ++ "/" ++ identifier ∧
        IsEntryName repository ∧ IsEntryName kind ∧ IsEntryName function ∧
          IsEntryName identifier) ∧
      (∀ k k' : ArtifactKey, k.Proper → k'.Proper → k.path = k'.path → k = k') ∧
      ∀ calls : List ArtifactCall, (∀ call ∈ calls, call.Allowed) →
        ArtifactCall.answers MemoryArtifacts.empty calls =
            ArtifactCall.answers ArtifactDirectory.empty calls ∧
          ArtifactCall.AllAnswered [] calls (ArtifactCall.answers MemoryArtifacts.empty calls) ∧
          ArtifactCall.AllAnswered [] calls
            (ArtifactCall.answers ArtifactDirectory.empty calls) := by
  refine ⟨fun k hk => ?_, fun k k' hk hk' => ArtifactKey.eq_of_path_eq hk hk',
    fun calls hcalls => ?_⟩
  · have hnames := ArtifactKey.isEntryName_of_mem_names hk
    simp only [ArtifactKey.names, List.forall_mem_cons] at hnames
    obtain ⟨hrepository, hkind, hfunction, hidentifier, -⟩ := hnames
    refine ⟨_, _, _, _, ?_, hrepository, hkind, hfunction, hidentifier⟩
    rw [ArtifactKey.path]
    simp [String.join_cons, String.append_assoc]
  · obtain ⟨hsame, hright⟩ := Held.empty.answers_eq hcalls
    exact ⟨hsame, hright, hsame ▸ hright⟩

/-! ### Calls about two functions -/

/-- The key of an artifact in a repository whose name is escaped. -/
def sampleKey (functionKey : String) : ArtifactKey :=
  .ofContent "." .diffs functionKey [120]

/-- Something is put twice under one key, and asked for under that and another one. -/
def sampleCalls : List ArtifactCall :=
  [.put (sampleKey "a.py#f") [120], .put (sampleKey "a.py#f") [], .get (sampleKey "a.py#f"),
    .get (sampleKey "a.py%23f")]

theorem sampleKey_kept {functionKey : String} (hne : functionKey ≠ "")
    (htaken : ArtifactDirectory.Takes (ArtifactKey.component functionKey)) :
    (sampleKey functionKey).Proper ∧
      ArtifactDirectory.pathFault? (ArtifactDirectory.fileOf (sampleKey functionKey)) = none := by
  have hrepository : ArtifactDirectory.Takes (ArtifactKey.component ".") :=
    ArtifactDirectory.takes_ofList (by decide) (by decide)
  have hproper : (sampleKey functionKey).Proper := ⟨(by decide : "." ≠ ""), hne, [120], rfl⟩
  exact ⟨hproper, ArtifactDirectory.pathFault?_fileOf hproper hrepository htaken⟩

theorem sampleKey_escaped_kept : (sampleKey "a.py#f").Proper ∧
    ArtifactDirectory.pathFault? (ArtifactDirectory.fileOf (sampleKey "a.py#f")) = none :=
  sampleKey_kept (by decide) (ArtifactDirectory.takes_ofList (by decide) (by decide))

theorem sampleKey_plain_kept : (sampleKey "a.py%23f").Proper ∧
    ArtifactDirectory.pathFault? (ArtifactDirectory.fileOf (sampleKey "a.py%23f")) = none :=
  sampleKey_kept (by decide) (ArtifactDirectory.takes_ofList (by decide) (by decide))

theorem artifacts_agree_sampleCalls :
    (sampleKey "a.py#f").path ≠ (sampleKey "a.py%23f").path ∧
      ArtifactCall.answers MemoryArtifacts.empty sampleCalls =
        ArtifactCall.answers ArtifactDirectory.empty sampleCalls := by
  obtain ⟨hescaped, hescapedKept⟩ := sampleKey_escaped_kept
  obtain ⟨hplain, hplainKept⟩ := sampleKey_plain_kept
  have hcalls : ∀ call ∈ sampleCalls, call.Allowed := by
    simp only [sampleCalls, List.forall_mem_cons]
    exact ⟨⟨hescaped, hescapedKept⟩, ⟨hescaped, hescapedKept⟩, ⟨hescaped, hescapedKept⟩,
      ⟨hplain, hplainKept⟩, List.forall_mem_nil _⟩
  obtain ⟨-, hinjective, hsame⟩ := artifacts_agree
  refine ⟨fun hpath => ?_, (hsame sampleCalls hcalls).1⟩
  have hkeys := hinjective _ _ hescaped hplain hpath
  have hfunctions : "a.py#f" = "a.py%23f" := congrArg ArtifactKey.functionKey hkeys
  exact absurd hfunctions (by decide)

end Dossier
