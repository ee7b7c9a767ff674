import Mathlib.Tactic.SplitIfs
import ClassEngine.Proofs.Files.Paths
import ClassEngine.Search.Directory

/-!
# Directories cannot be left

A class is read below its root, at the names that make up the class name, or nothing is
read: what a name holds of `.`, `..` and empty parts never reaches the file tree, and a
root may hold as many of them as it likes.
-/

namespace ClassEngine.Files

open Text

variable {root directory rest : String}

theorem ne_empty_of_plain (hplain : ∀ name ∈ split '/' rest, IsPlain name) : rest ≠ "" := by
  rintro rfl
  exact (hplain "" (by simp [split, splitChars])).1 rfl

theorem isRooted_of_plain (hplain : ∀ name ∈ split '/' rest, IsPlain name) :
    Pathname.isRooted rest = false := by
  rw [Pathname.isRooted, decide_eq_false_iff_not]
  intro hhead
  obtain ⟨chars, hchars⟩ := List.head?_eq_some_iff.1 hhead
  exact (hplain "" (by simp [split, hchars, splitChars])).1 rfl

namespace Pathname

theorem ofString_below (hdir : directory ≠ "")
    (hplain : ∀ name ∈ split '/' rest, IsPlain name) :
    ofString (directory ++ "/" ++ rest) =
      ⟨(ofString directory).rooted, (ofString directory).names ++ split '/' rest⟩ := by
  simp only [ofString, String.append_assoc, isRooted_append _ hdir]
  rw [← String.append_assoc, split_append_slash, List.foldl_append, foldl_keep_of_plain hplain]
  simp

theorem ofString_of_plain (hplain : ∀ name ∈ split '/' rest, IsPlain name) :
    ofString rest = ⟨false, split '/' rest⟩ := by
  rw [ofString, isRooted_of_plain hplain, foldl_keep_of_plain hplain]
  simp

end Pathname

theorem join_pair (root : String) (hrest : rest ≠ "") :
    join [root, rest] = clean (if root = "" then rest else root ++ "/" ++ rest) := by
  by_cases hroot : root = "" <;> simp [join, List.dropWhile, hroot, hrest]

theorem ofString_join (root : String) (hplain : ∀ name ∈ split '/' rest, IsPlain name) :
    Pathname.ofString (join [root, rest]) =
      ⟨(Pathname.ofString root).rooted, (Pathname.ofString root).names ++ split '/' rest⟩ := by
  rw [join_pair root (ne_empty_of_plain hplain), ofString_clean]
  split_ifs with hroot
  · subst hroot
    exact Pathname.ofString_of_plain hplain
  · exact Pathname.ofString_below hroot hplain

/-- What is written before names that stand below a cleaned directory. -/
def leading (directory : String) : String :=
  if directory = "." then "" else if directory = "/" then "/" else directory ++ "/"

theorem ofString_eq_of_clean {text : String} (hclean : clean root = text) :
    Pathname.ofString root = Pathname.ofString text := by
  rw [← hclean, ofString_clean]

theorem clean_ne_empty (root : String) : clean root ≠ "" := by
  intro hempty
  rw [clean, ofString_eq_of_clean hempty] at hempty
  exact absurd hempty (by decide)

theorem join_written (root : String) (hplain : ∀ name ∈ split '/' rest, IsPlain name) :
    join [root, rest] = leading (clean root) ++ rest := by
  have hjoin : join [root, rest] = (Pathname.ofString (join [root, rest])).toString := by
    rw [join_pair root (ne_empty_of_plain hplain)]
    exact (clean_clean _).symm
  rw [hjoin, ofString_join root hplain]
  have hdot : clean root = "." → Pathname.ofString root = ⟨false, []⟩ := ofString_eq_of_clean
  have hslash : clean root = "/" → Pathname.ofString root = ⟨true, []⟩ := ofString_eq_of_clean
  have hclean : clean root = (Pathname.ofString root).toString := rfl
  generalize Pathname.ofString root = p at hdot hslash hclean ⊢
  obtain ⟨rooted, names⟩ := p
  rcases eq_or_ne names [] with rfl | hnames
  · cases rooted <;>
      simp [leading, hclean, Pathname.toString, intercalate_split, split_ne_nil]
  · have hleading : leading (clean root) = clean root ++ "/" := by
      rw [leading, if_neg (by simp_all), if_neg (by simp_all)]
    rw [hleading, hclean]
    cases rooted <;>
      simp [Pathname.toString, hnames, intercalate_split, String.append_assoc,
        String.intercalate_append_of_ne_nil hnames (split_ne_nil '/' rest)]

namespace Tree

variable {t : Tree} {place final : List String} {node : Node}

theorem follow_append (t : Tree) (place names rest : List String) :
    t.follow place (names ++ rest) = (t.follow place names).bind (t.follow · rest) := by
  induction names generalizing place with
  | nil => rfl
  | cons name names ih =>
    simp only [List.cons_append, follow]
    cases t.node? place with
    | none => rfl
    | some node =>
      cases node with
      | file _ => rfl
      | directory => simp only [ih]; split_ifs <;> rfl

theorem follow_plain {names : List String} (hplain : ∀ name ∈ names, IsPlain name)
    (hfollow : t.follow place names = .ok final) :
    final = place ++ names ∧ (names ≠ [] → t.node? place = some .directory) := by
  induction names generalizing place with
  | nil => simp_all [follow]
  | cons name names ih =>
    obtain ⟨hempty, hdot, hup⟩ := hplain name List.mem_cons_self
    unfold follow at hfollow
    split at hfollow
    · cases hfollow
    · cases hfollow
    · rename_i hdir
      simp only [hempty, hdot, hup, or_self, if_false] at hfollow
      split_ifs at hfollow
      obtain ⟨rfl, -⟩ := ih (fun n hn => hplain n (List.mem_cons_of_mem _ hn)) hfollow
      exact ⟨by simp, fun _ => hdir⟩

theorem begin_eq_ok_iff {path : String} {start names : List String} :
    t.begin path = .ok (start, names) ↔
      '\x00' ∉ path.toList ∧ path ≠ "" ∧ path.utf8ByteSize ≤ pathLimit ∧
        start = (if Pathname.isRooted path then [] else t.current) ∧ names = split '/' path := by
  simp only [begin, List.contains_iff_mem]
  by_cases hzero : '\x00' ∈ path.toList
  · simp [hzero]
  by_cases hempty : path = ""
  · simp [hempty]
  by_cases hsize : pathLimit < path.utf8ByteSize
  · simp [hzero, hempty, hsize, Nat.not_le.2 hsize]
  · have hle : path.utf8ByteSize ≤ pathLimit := Nat.not_lt.1 hsize
    simp only [hzero, hempty, hsize, hle, if_false, Except.ok.injEq, Prod.mk.injEq, ne_eq,
      not_false_eq_true, true_and]
    exact and_congr eq_comm eq_comm

theorem locate_eq_ok_iff {path : String} :
    t.locate path = .ok (place, node) ↔ ∃ start names,
      t.begin path = .ok (start, names) ∧ t.follow start names = .ok place ∧
        t.node? place = some node := by
  simp only [locate, bind, Except.bind]
  constructor
  · intro hlocate
    cases hbegin : t.begin path with
    | error _ => simp [hbegin] at hlocate
    | ok begun =>
      obtain ⟨start, names⟩ := begun
      cases hfollow : t.follow start names with
      | error _ => simp [hbegin, hfollow] at hlocate
      | ok reached =>
        cases hnode : t.node? reached with
        | none => simp [hbegin, hfollow, hnode] at hlocate
        | some found =>
          simp only [hbegin, hfollow, hnode, Except.ok.injEq, Prod.mk.injEq] at hlocate
          obtain ⟨rfl, rfl⟩ := hlocate
          exact ⟨start, names, rfl, hfollow, hnode⟩
  · rintro ⟨start, names, hbegin, hfollow, hnode⟩
    simp [hbegin, hfollow, hnode]

theorem exists_locate_of_read {path : String} {bytes : List UInt8}
    (hread : t.read path = .ok bytes) : ∃ place, t.locate path = .ok (place, .file bytes) := by
  unfold read at hread
  split at hread
  · rename_i place found hlocate
    cases hread
    exact ⟨place, hlocate⟩
  · cases hread
  · cases hread

theorem locate_current (hcurrent : t.node? t.current = some .directory) :
    t.locate "." = .ok (t.current, .directory) := by
  refine locate_eq_ok_iff.2 ⟨t.current, ["."], begin_eq_ok_iff.2 ?_, ?_, hcurrent⟩
  · exact ⟨by decide, by decide, by decide, by simp [Pathname.isRooted], by decide⟩
  · simp [follow, hcurrent]

theorem locate_top (t : Tree) : t.locate "/" = .ok ([], .directory) := by
  have htop : t.node? [] = some .directory := rfl
  refine locate_eq_ok_iff.2 ⟨[], ["", ""], begin_eq_ok_iff.2 ?_, ?_, htop⟩
  · exact ⟨by decide, by decide, by decide, by simp [Pathname.isRooted], by decide⟩
  · simp [follow, htop]

/-- What plain names lead to from a directory stands below it at these names. -/
theorem locate_leading {directory : String} (hdir : directory ≠ "")
    (hplain : ∀ name ∈ split '/' rest, IsPlain name)
    (hlocate : t.locate (leading directory ++ rest) = .ok (place, node)) :
    ∃ above, t.locate directory = .ok (above, .directory) ∧ place = above ++ split '/' rest := by
  obtain ⟨start, names, hbegin, hfollow, -⟩ := locate_eq_ok_iff.1 hlocate
  obtain ⟨hzero, -, hsize, rfl, rfl⟩ := begin_eq_ok_iff.1 hbegin
  have hparts := split_ne_nil '/' rest
  by_cases hdot : directory = "."
  · subst hdot
    simp only [leading, if_true, String.empty_append] at hfollow
    obtain ⟨hplace, hcurrent⟩ := follow_plain hplain hfollow
    rw [isRooted_of_plain hplain, if_neg (by decide)] at hplace hcurrent
    exact ⟨t.current, locate_current (hcurrent hparts), hplace⟩
  by_cases hslash : directory = "/"
  · subst hslash
    have hsplit : split '/' ("/" ++ rest) = "" :: split '/' rest := by simp [split, splitChars]
    have hrooted : Pathname.isRooted ("/" ++ rest) = true := by simp [Pathname.isRooted]
    simp only [leading, if_neg hdot, if_true, hsplit, hrooted] at hfollow
    have htop : t.node? [] = some .directory := rfl
    simp only [follow, htop, true_or, if_true] at hfollow
    exact ⟨[], t.locate_top, (follow_plain hplain hfollow).1⟩
  · simp only [leading, if_neg hdot, if_neg hslash] at hzero hsize hfollow
    rw [String.append_assoc, Pathname.isRooted_append _ hdir, ← String.append_assoc,
      split_append_slash, follow_append] at hfollow
    cases habove : t.follow (if Pathname.isRooted directory then [] else t.current)
        (split '/' directory) with
    | error _ => simp [habove, Except.bind] at hfollow
    | ok above =>
      rw [habove] at hfollow
      obtain ⟨hplace, hnode⟩ := follow_plain hplain hfollow
      refine ⟨above, locate_eq_ok_iff.2 ⟨_, _, begin_eq_ok_iff.2 ⟨?_, hdir, ?_, rfl, rfl⟩, habove,
        hnode hparts⟩, hplace⟩
      · simp_all
      · simp only [String.utf8ByteSize_append] at hsize
        omega

end Tree

end ClassEngine.Files

namespace ClassEngine.Search.Directory

open Files Text

/-- The names of the file of a class: those of the class, the last one with the ending. -/
def fileNames (name : String) : List String :=
  (split '/' name).modifyLast (· ++ ".class")

theorem fileNames_eq (name : String) : fileNames name = split '/' (name ++ ".class") :=
  (split_append_of_not_mem name (by decide)).symm

theorem isPlain_of_validName {name : String} (hvalid : validName name = true) :
    ∀ part ∈ fileNames name, IsPlain part := by
  simp only [validName, Bool.and_eq_true, List.all_eq_true, decide_eq_true_eq] at hvalid
  obtain ⟨above, last, hparts⟩ : ∃ above last, split '/' name = above ++ [last] := by
    simpa using (List.eq_nil_or_concat (split '/' name)).resolve_left (split_ne_nil '/' name)
  intro part hpart
  rw [fileNames, hparts, List.modifyLast_concat, List.mem_append, List.mem_singleton] at hpart
  rcases hpart with hpart | rfl
  · simpa [IsPlain, and_assoc] using hvalid.2 part (by simp [hparts, hpart])
  · have hlong : ".class".length ≤ (last ++ ".class").length := by
      rw [String.length_append]
      exact Nat.le_add_left _ _
    refine ⟨?_, ?_, ?_⟩ <;> rintro heq <;> exact absurd (heq ▸ hlong) (by decide)

/-- How the path of a class lies below a root: at the names of the cleaned root come those
of the class, and each of these is a plain file name. -/
structure Below (root name path : String) : Prop where
  names : Pathname.ofString path =
    ⟨(Pathname.ofString root).rooted, (Pathname.ofString root).names ++ fileNames name⟩
  written : path = leading (clean root) ++ name ++ ".class"
  plain : fileNames name ≠ [] ∧ ∀ part ∈ fileNames name, IsPlain part ∧ '/' ∉ part.toList

theorem below_of_file? {root name path : String} (hfile : file? root name = some path) :
    Below root name path := by
  obtain ⟨hvalid, rfl⟩ : validName name = true ∧ join [root, name ++ ".class"] = path := by
    simpa [file?] using hfile
  have hplain := isPlain_of_validName hvalid
  rw [fileNames_eq] at hplain
  refine ⟨?_, ?_, ?_, fun part hpart => ?_⟩
  · rw [fileNames_eq]
    exact ofString_join root hplain
  · rw [join_written root hplain, String.append_assoc]
  · rw [fileNames_eq]
    exact split_ne_nil _ _
  · rw [fileNames_eq] at hpart
    exact ⟨hplain part hpart, not_mem_of_mem_split hpart⟩

/-- A class is read from the place that its names have below the root. -/
theorem place_of_find {tree : Tree} {root name path : String} {bytes : List UInt8}
    (hfile : file? root name = some path) (hfind : find tree root name = .ok bytes) :
    ∃ above, tree.locate (clean root) = .ok (above, .directory) ∧
      tree.node? (above ++ fileNames name) = some (.file bytes) := by
  have hbelow := below_of_file? hfile
  have hplain : ∀ part ∈ split '/' (name ++ ".class"), IsPlain part := fun part hpart =>
    (hbelow.plain.2 part (fileNames_eq name ▸ hpart)).1
  have hread : tree.read path = .ok bytes := by
    simp only [find, hfile] at hfind
    cases hread : tree.read path <;> simp_all
  obtain ⟨place, hlocate⟩ := Tree.exists_locate_of_read hread
  have hnode : tree.node? place = some (.file bytes) := by
    obtain ⟨_, _, -, -, hnode⟩ := Tree.locate_eq_ok_iff.1 hlocate
    exact hnode
  rw [hbelow.written, String.append_assoc] at hlocate
  obtain ⟨above, habove, rfl⟩ := Tree.locate_leading (clean_ne_empty root) hplain hlocate
  exact ⟨above, habove, fileNames_eq name ▸ hnode⟩

/-- No lookup in a directory leaves it.  A name without a file is not found, whatever the
tree holds; otherwise nothing but the file at one path is read, which lies strictly below
the cleaned root, at the names of the class, and is that of no other class. -/
theorem find_stays_below (root name : String) :
    (file? root name = none → ∀ tree, find tree root name = .error (.notFound name)) ∧
      ∀ path, file? root name = some path →
        Below root name path ∧
        (∀ tree tree' : Tree, tree.read path = tree'.read path →
          find tree root name = find tree' root name) ∧
        (∀ tree bytes, find tree root name = .ok bytes →
          ∃ above, tree.locate (clean root) = .ok (above, .directory) ∧
            tree.node? (above ++ fileNames name) = some (.file bytes)) ∧
        ∀ name', file? root name' = some path → name' = name := by
  refine ⟨fun hnone tree => by simp [find, hnone], fun path hfile => ⟨below_of_file? hfile,
    fun tree tree' hread => by simp [find, hfile, hread], fun tree bytes => place_of_find hfile,
    fun name' hfile' => ?_⟩⟩
  have hwritten := (below_of_file? hfile).written
  rw [(below_of_file? hfile').written, String.append_assoc, String.append_assoc] at hwritten
  simpa using hwritten

/-- A root that leads upwards is cleaned, and the class stays below what it names. -/
theorem find_stays_below_upwards :
    file? "../lib/./x/.." "a/b/C" = some "../lib/a/b/C.class" ∧
      Pathname.ofString "../lib/a/b/C.class" = ⟨false, ["..", "lib"] ++ ["a", "b", "C.class"]⟩ ∧
      ∀ name, file? "../lib/./x/.." name = some "../lib/a/b/C.class" → name = "a/b/C" := by
  have hfile : file? "../lib/./x/.." "a/b/C" = some "../lib/a/b/C.class" := by decide
  have hbelow := (find_stays_below "../lib/./x/.." "a/b/C").2 _ hfile
  exact ⟨hfile, hbelow.1.names, hbelow.2.2.2⟩

end ClassEngine.Search.Directory
