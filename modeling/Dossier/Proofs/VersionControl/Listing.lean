import Dossier.Proofs.Text.Blank
import Dossier.Proofs.Text.Utf8
import Dossier.VersionControl.Git

/-!
# The names in a listing

A listing of files has a zero character after every name, so that names of all kinds can be told
apart: none has a zero character in it, and none is empty. But the blanks at the ends of what git
writes are dropped before the names are looked for. The zero character after the last name protects
what stands before it, and nothing protects the beginning of the first name. So the names are read
back exactly if the first of them does not begin with a blank (`Dossier.Git.names_listed_iff`).
-/

namespace Dossier

namespace Git

/-- **What git writes for a listing**: the names, with a zero character after each. -/
def listingOf (names : List String) : String :=
  String.ofList (names.flatMap fun name => name.toList ++ ['\x00'])

/-- Whether a text can be the name of a file. -/
def IsName (name : String) : Prop :=
  name ≠ "" ∧ '\x00' ∉ name.toList

variable {names : List String} {pieces : List (List Char)}

/-- What has a zero character after it is read as it stands, unless it is empty. -/
theorem readListing_eq (h : ∀ piece ∈ pieces, '\x00' ∉ piece) :
    readListing (String.ofList (pieces.flatMap (· ++ ['\x00']))) =
      (pieces.filter (!·.isEmpty)).map String.ofList := by
  have hsplit : Text.splitAt (· == '\x00') (pieces.flatMap (· ++ ['\x00'])) = pieces ++ [[]] := by
    induction pieces with
    | nil => rfl
    | cons piece pieces ih =>
      obtain ⟨hpiece, hpieces⟩ := List.forall_mem_cons.mp h
      have halone : Text.splitAt (· == '\x00') piece = [piece] :=
        Text.splitAt_of_forall fun c hc => beq_false_of_ne (ne_of_mem_of_not_mem hc hpiece)
      rw [List.flatMap_cons, List.append_assoc, List.singleton_append,
        Text.splitAt_append (by decide), halone, ih hpieces, List.singleton_append,
        List.cons_append]
  rw [readListing, String.toList_ofList, hsplit, List.filter_append]
  simp

/-- A zero character ends what is written of some names, and stands before them all. -/
theorem exists_zero_last (pieces : List (List Char)) :
    ∃ front, '\x00' :: pieces.flatMap (· ++ ['\x00']) = front ++ ['\x00'] := by
  rcases List.eq_nil_or_concat pieces with rfl | ⟨init, last, rfl⟩
  · exact ⟨[], rfl⟩
  · refine ⟨'\x00' :: init.flatMap (· ++ ['\x00']) ++ last, ?_⟩
    simp

/-- **What is left of a listing** when the blanks at its ends are dropped: all but the blanks before
the first name. -/
theorem written_listingOf (name : String) (names : List String) :
    written (Text.encode (listingOf (name :: names))) =
      String.ofList ((Text.dropBlank name.toList :: names.map String.toList).flatMap
        (· ++ ['\x00'])) := by
  have hzero : Text.isBlank '\x00' = false := by decide
  obtain ⟨front, hfront⟩ := exists_zero_last (names.map String.toList)
  have hlisting : (listingOf (name :: names)).toList = name.toList ++ (front ++ ['\x00']) := by
    rw [listingOf, String.toList_ofList, List.flatMap_cons, List.append_assoc,
      List.singleton_append, ← hfront, List.flatMap_map]
  rw [written, Text.decode_encode, Text.trim, hlisting, ← hfront, Text.trimChars,
    Text.dropBlank_append_cons hzero, hfront, ← List.append_assoc,
    Text.dropBlankRight_concat hzero, List.append_assoc, ← hfront, List.flatMap_cons,
    List.append_assoc, List.singleton_append]

/-- **What is read of a listing**: every name, but the first without the blanks at its beginning,
and not at all if it is blank. -/
theorem outcome_listFiles (revision : String) (complaint : List UInt8) {name : String}
    (h : ∀ n ∈ name :: names, IsName n) :
    outcome (.listFiles revision) ⟨true, Text.encode (listingOf (name :: names)), complaint⟩ =
      .ok (if Text.dropBlank name.toList = [] then names
        else String.ofList (Text.dropBlank name.toList) :: names) := by
  obtain ⟨⟨-, hname⟩, hnames⟩ := List.forall_mem_cons.mp h
  have hpieces : ∀ piece ∈ Text.dropBlank name.toList :: names.map String.toList,
      '\x00' ∉ piece := by
    refine List.forall_mem_cons.mpr ⟨fun hzero => hname ?_, List.forall_mem_map.mpr fun n hn => ?_⟩
    · exact (List.dropWhile_suffix Text.isBlank).subset hzero
    · exact (hnames n hn).2
  -- Of the other names something is left.
  have hkept : ((names.map String.toList).filter (!·.isEmpty)).map String.ofList = names := by
    rw [List.filter_eq_self.mpr, List.map_map]
    · exact List.map_id'' (fun n => String.ofList_toList) names
    · refine List.forall_mem_map.mpr fun n hn => ?_
      simpa using (hnames n hn).1
  rw [outcome, if_pos rfl, written_listingOf, answer, readListing_eq hpieces, List.filter_cons]
  by_cases hblank : Text.dropBlank name.toList = []
  · rw [if_neg (by simp [hblank]), if_pos hblank, hkept]
  · rw [if_pos (by simp [hblank]), if_neg hblank, List.map_cons, hkept]

/-- **A listing is read back exactly if its first name does not begin with a blank.** -/
theorem names_listed_iff (revision : String) (complaint : List UInt8)
    (h : ∀ name ∈ names, IsName name) :
    outcome (.listFiles revision) ⟨true, Text.encode (listingOf names), complaint⟩ = .ok names ↔
      ∀ name ∈ names.head?, ∀ c ∈ name.toList.head?, Text.isBlank c = false := by
  rcases names with _ | ⟨name, names⟩
  · have hwritten : written (Text.encode (listingOf [])) = "" := by decide +kernel
    have hread : readListing "" = [] := by decide +kernel
    simp [outcome, answer, hwritten, hread]
  have hne : name.toList ≠ [] := by simpa using (List.forall_mem_cons.mp h).1.1
  rw [outcome_listFiles revision complaint h]
  constructor
  · rintro hread _ ⟨⟩
    refine Text.dropBlank_eq_self_iff.mp ?_
    have hnames := Except.ok.inj hread
    split at hnames
    · exact absurd (congrArg List.length hnames) (by simp)
    · have hfirst := congrArg String.toList (List.cons.inj hnames).1
      rwa [String.toList_ofList] at hfirst
  · intro hfirst
    have hself := Text.dropBlank_eq_self_iff.mpr (hfirst name rfl)
    rw [hself, if_neg hne, String.ofList_toList]

theorem names_listed_iff_sample : (∀ name ∈ ["b.py", " a.py"], IsName name) ∧
    outcome (.listFiles "HEAD") ⟨true, Text.encode (listingOf ["b.py", " a.py"]), []⟩ =
      .ok ["b.py", " a.py"] := by
  have hnames : ∀ name ∈ ["b.py", " a.py"], IsName name := by simp [IsName]
  refine ⟨hnames, (names_listed_iff "HEAD" [] hnames).mpr ?_⟩
  rintro _ ⟨⟩ _ ⟨⟩
  decide

/-- **A name that is not read as it stands**: the blank before the first name of a listing is
lost. -/
theorem listed_without_blank : (∀ name ∈ [" a.py", "b.py"], IsName name) ∧
    outcome (.listFiles "HEAD") ⟨true, Text.encode (listingOf [" a.py", "b.py"]), []⟩ =
      .ok ["a.py", "b.py"] := by
  refine ⟨by simp [IsName], ?_⟩
  decide +kernel

end Git

end Dossier
