import Mathlib.Data.List.ModifyLast
import Mathlib.Logic.Basic
import ClassEngine.Files.Tree

/-!
# Theory of paths

A path that was read is in normal form, and what is written for a normal form reads
back as it: cleaning a path changes what is written, not what is meant.  Names that are
plain file names are taken as they stand, above any path.
-/

namespace ClassEngine.Text

theorem splitChars_eq_splitOn (separator : Char) (text : List Char) :
    splitChars separator text = text.splitOn separator := by
  induction text with
  | nil => rfl
  | cons c rest ih =>
    rw [splitChars, ih, List.splitOn_cons_eq_if_modifyHead]
    by_cases hc : c = separator
    · simp [hc]
    · obtain ⟨piece, pieces, hp⟩ :=
        List.exists_cons_of_ne_nil (List.splitOn_ne_nil separator rest)
      simp [hc, hp]

theorem map_toList_split (separator : Char) (text : String) :
    (split separator text).map String.toList = text.toList.splitOn separator := by
  simp [split, splitChars_eq_splitOn, Function.comp_def]

theorem split_eq_iff {separator : Char} {text : String} {pieces : List String} :
    split separator text = pieces ↔
      text.toList.splitOn separator = pieces.map String.toList := by
  rw [← map_toList_split, List.map_inj_right fun _ _ => String.toList_inj.1]

theorem split_ne_nil (separator : Char) (text : String) : split separator text ≠ [] := by
  simp [split, splitChars_ne_nil]

theorem intercalate_split (text : String) : "/".intercalate (split '/' text) = text := by
  rw [← String.toList_inj, String.toList_intercalate, map_toList_split]
  exact List.intercalate_splitOn '/'

theorem split_intercalate {names : List String} (hne : names ≠ [])
    (hplain : ∀ name ∈ names, '/' ∉ name.toList) :
    split '/' ("/".intercalate names) = names := by
  rw [split_eq_iff, String.toList_intercalate]
  exact List.splitOn_intercalate '/' (by simpa using hplain) (by simpa using hne)

theorem not_mem_of_mem_splitChars {separator : Char} {text piece : List Char}
    (hpiece : piece ∈ splitChars separator text) : separator ∉ piece := by
  induction text generalizing piece with
  | nil => simp_all [splitChars]
  | cons c rest ih =>
    rw [splitChars] at hpiece
    by_cases hc : c = separator
    · rw [if_pos hc, List.mem_cons] at hpiece
      rcases hpiece with rfl | hpiece
      · simp
      · exact ih hpiece
    · obtain ⟨first, pieces, hp⟩ := List.exists_cons_of_ne_nil (splitChars_ne_nil separator rest)
      rw [if_neg hc, hp, List.mem_cons] at hpiece
      rw [hp] at ih
      rcases hpiece with rfl | hpiece
      · have := ih List.mem_cons_self
        simp_all [eq_comm]
      · exact ih (List.mem_cons_of_mem _ hpiece)

theorem not_mem_of_mem_split {separator : Char} {text piece : String}
    (hpiece : piece ∈ split separator text) : separator ∉ piece.toList := by
  obtain ⟨chars, hchars, rfl⟩ := List.mem_map.1 hpiece
  simpa using not_mem_of_mem_splitChars hchars

theorem split_append_slash (text rest : String) :
    split '/' (text ++ "/" ++ rest) = split '/' text ++ split '/' rest := by
  rw [split_eq_iff, List.map_append, map_toList_split, map_toList_split]
  simp [List.splitOn_append_cons_self]

theorem split_append_of_not_mem (text : String) {ending : String}
    (hending : '/' ∉ ending.toList) :
    split '/' (text ++ ending) = (split '/' text).modifyLast (· ++ ending) := by
  obtain hnil | ⟨above, last, hs⟩ := List.eq_nil_or_concat (split '/' text)
  · exact absurd hnil (split_ne_nil '/' text)
  rw [List.concat_eq_append] at hs
  have hpieces : ∀ piece ∈ above ++ [last], '/' ∉ piece.toList := fun piece hpiece =>
    not_mem_of_mem_split (hs ▸ hpiece)
  have htext : text ++ ending = "/".intercalate (above ++ [last ++ ending]) := by
    rw [← intercalate_split text, hs]
    rcases eq_or_ne above [] with rfl | habove
    · simp
    · simp [String.intercalate_append_of_ne_nil habove, String.append_assoc]
  rw [hs, List.modifyLast_concat, htext]
  refine split_intercalate (by simp) ?_
  simp_all [or_imp, forall_and]

end ClassEngine.Text

namespace ClassEngine.Files

open Text

def IsPlain (name : String) : Prop :=
  name ≠ "" ∧ name ≠ "." ∧ name ≠ ".."

namespace Pathname

/-- The names kept by a reading, the latest first: file names above leading `..`, of
which a rooted path has none. -/
inductive Kept (rooted : Bool) : List String → Prop
  | nil : Kept rooted []
  | up {kept : List String} (hrel : rooted = false) (hups : ∀ name ∈ kept, name = "..")
      (hkept : Kept rooted kept) : Kept rooted (".." :: kept)
  | down {kept : List String} {name : String} (hplain : '/' ∉ name.toList)
      (hname : IsPlain name) (hkept : Kept rooted kept) :
      Kept rooted (name :: kept)

variable {rooted : Bool} {kept : List String} {name : String}

theorem keep_of_plain (hname : IsPlain name) : keep rooted kept name = name :: kept := by
  simp [keep, hname.1, hname.2]

theorem foldl_keep_of_plain {names : List String}
    (hnames : ∀ name ∈ names, IsPlain name) :
    names.foldl (keep rooted) kept = names.reverse ++ kept := by
  induction names generalizing kept with
  | nil => rfl
  | cons name names ih =>
    rw [List.foldl_cons, keep_of_plain (hnames name List.mem_cons_self),
      ih fun n hn => hnames n (List.mem_cons_of_mem _ hn)]
    simp

theorem Kept.keep (hkept : Kept rooted kept) (hplain : '/' ∉ name.toList) :
    Kept rooted (keep rooted kept name) := by
  by_cases hempty : name = "" ∨ name = "."
  · unfold Pathname.keep
    rwa [if_pos hempty]
  by_cases hup : name = ".."
  · unfold Pathname.keep
    rw [if_neg hempty, if_pos hup]
    cases hkept with
    | nil =>
      cases rooted with
      | true => exact .nil
      | false => exact .up rfl (by simp) .nil
    | up hrel hups hkept =>
      simp only [if_pos]
      exact .up hrel (by simpa using hups) (.up hrel hups hkept)
    | down _ hname hkept => simpa only [hname.2.2, if_neg, not_false_eq_true] using hkept
  · have hname : IsPlain name := by simp_all [IsPlain]
    rw [keep_of_plain hname]
    exact .down hplain hname hkept

theorem Kept.foldl {names : List String} (hkept : Kept rooted kept)
    (hnames : ∀ name ∈ names, '/' ∉ name.toList) :
    Kept rooted (names.foldl (Pathname.keep rooted) kept) := by
  induction names generalizing kept with
  | nil => exact hkept
  | cons name names ih =>
    exact ih (hkept.keep (hnames name List.mem_cons_self))
      fun n hn => hnames n (List.mem_cons_of_mem _ hn)

theorem Kept.again (hkept : Kept rooted kept) :
    kept.reverse.foldl (Pathname.keep rooted) [] = kept := by
  induction hkept with
  | nil => rfl
  | up hrel hups _ ih =>
    rw [List.reverse_cons, List.foldl_append, ih]
    rename_i kept _
    cases kept with
    | nil => simp [Pathname.keep, hrel]
    | cons latest earlier => simp [Pathname.keep, hups]
  | down _ hname _ ih =>
    rw [List.reverse_cons, List.foldl_append, ih]
    exact keep_of_plain hname

theorem Kept.named (hkept : Kept rooted kept) : ∀ name ∈ kept, name ≠ "" ∧ '/' ∉ name.toList := by
  induction hkept with
  | nil => simp
  | up _ _ _ ih => simpa using ih
  | down hplain hname _ ih => simpa [hplain, hname.1] using ih

theorem kept_ofString (text : String) :
    Kept (isRooted text) (ofString text).names.reverse := by
  rw [ofString, List.reverse_reverse]
  exact Kept.nil.foldl fun _ => not_mem_of_mem_split

theorem isRooted_append {text : String} (rest : String) (hne : text ≠ "") :
    isRooted (text ++ rest) = isRooted text := by
  simp [isRooted, hne]

theorem ofString_slash (rest : String) :
    ofString ("/" ++ rest) = ⟨true, ((split '/' rest).foldl (keep true) []).reverse⟩ := by
  have hsplit : split '/' ("/" ++ rest) = "" :: split '/' rest := by
    simp [split, splitChars]
  simp [ofString, isRooted, hsplit, keep]

/-- The text of a path in normal form reads as that path. -/
theorem ofString_toString {p : Pathname} (hp : Kept p.rooted p.names.reverse) :
    ofString p.toString = p := by
  obtain ⟨rooted, names⟩ := p
  have hnamed : ∀ name ∈ names, name ≠ "" ∧ '/' ∉ name.toList := by
    simpa using hp.named
  have hread : (names.foldl (Pathname.keep rooted) []).reverse = names := by
    simpa using congrArg List.reverse hp.again
  have hplain : ∀ name ∈ names, '/' ∉ name.toList := fun name hname => (hnamed name hname).2
  cases rooted with
  | true =>
    rw [toString, if_pos rfl, ofString_slash]
    rcases names with - | ⟨first, rest⟩
    · simp [split, splitChars, keep]
    · rw [split_intercalate (by simp) hplain, hread]
  | false =>
    rcases names with - | ⟨first, rest⟩
    · simp [toString, ofString, isRooted, split, splitChars, keep]
    · have hfirst := hnamed first List.mem_cons_self
      have hrel : isRooted ("/".intercalate (first :: rest)) = false := by
        have hhead : first.toList.head? ≠ some '/' := fun hhead =>
          hfirst.2 (List.mem_of_head? hhead)
        rcases eq_or_ne rest [] with rfl | hrest
        · simpa [isRooted] using hhead
        · rw [String.intercalate_cons_of_ne_nil hrest, String.append_assoc,
            isRooted_append _ hfirst.1]
          simpa [isRooted] using hhead
      simp only [toString, Bool.false_eq_true, ↓reduceIte, List.isEmpty_cons]
      rw [ofString, hrel, split_intercalate (by simp) hplain, hread]

end Pathname

/-- Cleaning a path keeps what the path means. -/
theorem ofString_clean (text : String) :
    Pathname.ofString (clean text) = Pathname.ofString text :=
  Pathname.ofString_toString (Pathname.kept_ofString text)

theorem clean_clean (text : String) : clean (clean text) = clean text := by
  rw [clean, ofString_clean, clean]

end ClassEngine.Files
