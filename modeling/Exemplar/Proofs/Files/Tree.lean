import Exemplar.Files.Tree
import Mathlib.Data.List.TakeDrop
import Mathlib.Data.List.TakeWhile
import Mathlib.Data.String.Basic

/-!
# Proofs/Files/Tree — what is listed and what is written

A folder lists the names right below it in ascending order, each once (`pairwise_namesAt`,
`mem_namesAt`).  A file that has been written is read back by the path that it was written to
(`read_write`), and no other file is touched by writing one or by making the folders that lead to it
(`file?_putFile`, `files_makeFolders`).
-/

namespace Exemplar.FileTree

variable {t t' : FileTree} {l m start : List String} {name path text : String}
  {content : Content}

/-! ## Paths -/

/-- The empty path has one segment, which is empty. -/
theorem segments_ne_nil : Files.segments path ≠ [] := by
  rw [Files.segments, Ne, List.map_eq_nil_iff]
  exact List.splitOn_ne_nil _ _

/-- A path is told by the segments that lead to its last one. -/
theorem segments_eq :
    Files.segments path = (Files.segments path).dropLast ++ [lastSegment path] := by
  have hlast : (Files.segments path).getLast?
      = some ((Files.segments path).getLast segments_ne_nil) :=
    List.getLast?_eq_some_getLast _
  rw [lastSegment, hlast, Option.getD_some, List.dropLast_append_getLast]

/-- Where the last dot of a text is, its reverse is cut. -/
theorem span_reverse_iff {s after before : List Char} :
    s.reverse.span (· != '.') = (after.reverse, '.' :: before.reverse) ↔
      '.' ∉ after ∧ s = before ++ '.' :: after := by
  rw [List.span_eq_takeWhile_dropWhile, Prod.mk.injEq]
  constructor
  · rintro ⟨htake, hdrop⟩
    refine ⟨fun hdot => ?_, ?_⟩
    · have hne := List.mem_takeWhile_imp (htake ▸ List.mem_reverse.2 hdot)
      simp at hne
    · have hall := List.takeWhile_append_dropWhile (p := (· != '.')) (l := s.reverse)
      rw [htake, hdrop] at hall
      simpa using (congrArg List.reverse hall).symm
  · rintro ⟨hdot, rfl⟩
    have hpass : ∀ c ∈ after.reverse, (c != '.') = true := by
      rintro c hc
      simpa using ne_of_mem_of_not_mem (List.mem_reverse.1 hc) hdot
    simp [List.takeWhile_append_of_pos hpass, List.dropWhile_append_of_pos hpass]

/-- The extension of a name is what stands after its last dot, if there is something before. -/
theorem extension?_eq_some_iff {ext : String} :
    Files.extension? name = some ext ↔
      name ≠ ".." ∧ '.' ∉ ext.toList ∧ ∃ stem, stem ≠ "" ∧ name = stem ++ "." ++ ext := by
  rw [Files.extension?]
  constructor
  -- the name is cut backwards, at the first dot from its end
  · intro h
    split at h
    · cases h
    · cases h
    · rename_i after c rest hno hspan
      split_ifs at h with hup
      obtain rfl := Option.some.inj h
      have hdot : c = '.' := by
        have hhead := List.head?_dropWhile_not (· != '.') name.toList.reverse
        rw [List.span_eq_takeWhile_dropWhile, Prod.mk.injEq] at hspan
        rw [hspan.2] at hhead
        simpa using hhead
      rw [hdot, ← List.reverse_reverse after, ← List.reverse_reverse rest,
        span_reverse_iff] at hspan
      refine ⟨by simpa using hup, by simpa using hspan.1, String.ofList rest.reverse, ?_, ?_⟩
      · rw [Ne, String.ofList_eq_empty_iff, List.reverse_eq_nil_iff]
        rintro rfl
        exact hno rfl
      · rw [← String.toList_inj, hspan.2]
        simp
  · rintro ⟨hup, hdot, stem, hstem, hname⟩
    have hspan : name.toList.reverse.span (· != '.')
        = (ext.toList.reverse, '.' :: stem.toList.reverse) :=
      span_reverse_iff.2 ⟨hdot, by rw [hname]; simp⟩
    obtain ⟨c, rest, hrest⟩ := List.exists_cons_of_ne_nil
      (List.reverse_eq_nil_iff.not.2 (String.toList_eq_nil_iff.not.2 hstem))
    rw [hspan, hrest]
    simp [hup]

/-- Names in a folder are in the same order as their paths. -/
theorem join_lt_join {folder a b : String} (h : a < b) :
    Files.join folder a < Files.join folder b := by
  have hprefix (s : String) : s ++ a < s ++ b := by
    rw [String.lt_iff_toList_lt, String.toList_append, String.toList_append]
    exact List.append_left_lt (String.lt_iff_toList_lt.1 h)
  rw [Files.join, Files.join]
  split_ifs
  · exact hprefix folder
  · exact hprefix (folder ++ "/")

/-! ## The names in a folder -/

theorem mem_insertName {n : String} {names : List String} :
    n ∈ insertName name names ↔ n = name ∨ n ∈ names := by
  induction names with
  | nil => simp [insertName]
  | cons k ks ih =>
    rw [insertName]
    split_ifs with hlt heq
    · exact List.mem_cons
    · rw [heq, List.mem_cons, or_self_left]
    · rw [List.mem_cons, ih, List.mem_cons, or_left_comm]

/-- Inserting keeps names sorted and in one copy each. -/
theorem pairwise_insertName {names : List String} (h : names.Pairwise (· < ·)) :
    (insertName name names).Pairwise (· < ·) := by
  induction names with
  | nil => exact List.pairwise_singleton _ _
  | cons k ks ih =>
    obtain ⟨hk, hks⟩ := List.pairwise_cons.1 h
    rw [insertName]
    split_ifs with hlt heq
    · refine List.pairwise_cons.2 ⟨fun n hn => ?_, h⟩
      obtain rfl | hn := List.mem_cons.1 hn
      · exact hlt
      · exact hlt.trans (hk n hn)
    · exact h
    · refine List.pairwise_cons.2 ⟨fun n hn => ?_, ih hks⟩
      obtain rfl | hn := mem_insertName.1 hn
      · exact lt_of_le_of_ne (not_lt.1 hlt) (Ne.symm heq)
      · exact hk n hn

/-- **Names are listed in ascending order**, whatever the order in which the tree holds them. -/
theorem pairwise_namesAt : (t.namesAt l).Pairwise (· < ·) := by
  rw [namesAt]
  induction t.locations.filterMap fun m => (l.isPrefixOf? m).bind List.head? with
  | nil => exact .nil
  | cons n ns ih => exact pairwise_insertName ih

theorem mem_foldr_insertName {names : List String} :
    name ∈ names.foldr insertName [] ↔ name ∈ names := by
  induction names with
  | nil => rfl
  | cons n ns ih => rw [List.foldr_cons, mem_insertName, ih, List.mem_cons]

/-- **A folder lists the names right below it**: those on the way to a file or to a folder. -/
theorem mem_namesAt : name ∈ t.namesAt l ↔ ∃ m ∈ t.locations, l ++ [name] <+: m := by
  rw [namesAt, mem_foldr_insertName, List.mem_filterMap]
  refine exists_congr fun m => and_congr_right fun _ => ?_
  rw [Option.bind_eq_some_iff]
  constructor
  · rintro ⟨below, hbelow, hhead⟩
    obtain ⟨rest, rfl⟩ := List.head?_eq_some_iff.1 hhead
    refine ⟨rest, ?_⟩
    rw [List.append_assoc]
    exact List.isPrefixOf?_eq_some_iff_append_eq.1 hbelow
  · rintro ⟨rest, hrest⟩
    refine ⟨name :: rest, List.isPrefixOf?_eq_some_iff_append_eq.2 ?_, rfl⟩
    rwa [List.append_assoc] at hrest

/-- A way that is passable can be gone on by one segment. -/
theorem follow_concat {segments : List String} {segment : String}
    (h : t.follow start segments = .ok l) :
    t.follow start (segments ++ [segment]) = t.enter l segment := by
  induction segments generalizing start with
  | nil =>
    obtain rfl : start = l := Except.ok.inj h
    rw [List.nil_append, follow]
    cases t.enter start segment <;> rfl
  | cons s ss ih =>
    rw [follow] at h
    rw [List.cons_append, follow]
    cases hs : t.enter start s with
    | error e => rw [hs] at h; cases h
    | ok next =>
      rw [hs] at h
      exact ih h

/-- What is a folder can be listed. -/
theorem exists_follow_of_lookup (h : t.lookup path = .ok .folder) :
    ∃ l, t.follow (t.origin path) (Files.segments path) = .ok l := by
  rw [lookup] at h
  split_ifs at h
  split at h
  · cases h
  · rename_i start hstart
    split at h
    · cases h
    · rw [segments_eq, follow_concat hstart]
      cases henter : t.enter start (lastSegment path) with
      | ok l => exact ⟨l, rfl⟩
      | error e => rw [henter] at h; cases h

/-! ## Putting a file in its place -/

/-- After a replacement the file at the location has the new content, and all others have theirs. -/
theorem find?_replace (files : List (List String × Content)) :
    ((putFile.replace l content files).find? fun f => f.1 == m).map Prod.snd =
      if m = l then some content else (files.find? fun f => f.1 == m).map Prod.snd := by
  induction files with
  | nil =>
    by_cases hm : m = l
    · simp [putFile.replace, hm]
    · simp [putFile.replace, hm, Ne.symm hm]
  | cons f fs ih =>
    rw [putFile.replace]
    by_cases hfl : f.1 = l
    · rw [if_pos hfl]
      by_cases hm : m = l
      · simp [hm]
      · simp [hm, Ne.symm hm, hfl]
    · rw [if_neg hfl]
      by_cases hfm : f.1 = m
      · simp [hfm, show ¬ m = l from hfm ▸ hfl]
      · simpa [hfm] using ih

/-- **A file that is put somewhere is there**, and all others are as they were. -/
theorem file?_putFile : (t.putFile l content).file? m = if m = l then some content else t.file? m :=
  find?_replace t.files

theorem mem_locations_putFile (h : m ∈ t.locations) : m ∈ (t.putFile l content).locations := by
  have hreplace (files : List (List String × Content)) (hm : m ∈ files.map Prod.fst) :
      m ∈ (putFile.replace l content files).map Prod.fst := by
    induction files with
    | nil => cases hm
    | cons f fs ih =>
      rw [putFile.replace]
      split_ifs with hf
      · exact hf ▸ hm
      · exact (List.mem_cons.1 hm).elim (fun h => h ▸ List.mem_cons_self)
          fun h => List.mem_cons_of_mem _ (ih h)
  rw [locations, List.mem_append, List.mem_append] at h ⊢
  exact h.imp_left (.imp_left (hreplace t.files))

/-- A file put in its place takes no folder away. -/
theorem hasFolder_putFile (h : t.hasFolder m = true) :
    (t.putFile l content).hasFolder m = true := by
  simp only [hasFolder, Bool.or_eq_true, List.any_eq_true] at h ⊢
  exact h.imp_right fun ⟨k, hk, hbelow⟩ => ⟨k, mem_locations_putFile hk, hbelow⟩

/-- There is a folder where there is no file and a location that lies in it. -/
theorem node?_eq_folder_iff :
    t.node? m = some .folder ↔ t.file? m = none ∧ t.hasFolder m = true := by
  rw [node?]
  cases t.file? m <;> simp

/-- A folder stays one when a file is put where no folder is. -/
theorem node?_putFile (hl : t.node? l ≠ some .folder) (h : t.node? m = some .folder) :
    (t.putFile l content).node? m = some .folder := by
  have hne : m ≠ l := fun heq => hl (heq ▸ h)
  rw [node?_eq_folder_iff] at h ⊢
  rw [file?_putFile, if_neg hne]
  exact ⟨h.1, hasFolder_putFile h.2⟩

/-- A step that is possible stays so if the new file does not stand in the place of a folder. -/
theorem enter_putFile {segment : String} (hl : t.node? l ≠ some .folder)
    (h : t.enter start segment = .ok m) : (t.putFile l content).enter start segment = .ok m := by
  rw [enter] at h ⊢
  split_ifs at h ⊢ with hvoid hup
  · exact h
  · exact h
  · split at h
    · rename_i hnode
      rw [node?_putFile hl hnode]
      exact h
    all_goals cases h

/-- A way stays passable if the new file does not stand in the place of a folder. -/
theorem follow_putFile {segments : List String} (hl : t.node? l ≠ some .folder)
    (h : t.follow start segments = .ok m) :
    (t.putFile l content).follow start segments = .ok m := by
  induction segments generalizing start with
  | nil => exact h
  | cons s ss ih =>
    rw [follow] at h ⊢
    cases hs : t.enter start s with
    | error e => rw [hs] at h; cases h
    | ok next =>
      rw [hs] at h
      rw [enter_putFile hl hs]
      exact ih h

/-! ## Writing -/

/-- What it takes to write a file, and what comes of it. -/
theorem exists_of_write (h : t.write path text = .ok t') :
    ∃ start, path.isEmpty = false ∧
      t.follow (t.origin path) (Files.segments path).dropLast = .ok start ∧
      t.node? (start ++ [lastSegment path]) ≠ some .folder ∧
      t' = t.putFile (start ++ [lastSegment path]) (.text text) := by
  have hreverse : (Files.segments path).reverse
      = lastSegment path :: (Files.segments path).dropLast.reverse := by
    conv_lhs => rw [segments_eq, List.reverse_append]
    rfl
  rw [write] at h
  split_ifs at h with hempty
  by_cases hlast : lastSegment path = ""
  · dsimp only at h
    split at h
    · cases h
    · rw [hlast] at h
      simp at h
  · -- a last name that is not empty is the one that is written to
    have hnamed : (Files.segments path).reverse.dropWhile String.isEmpty
        = lastSegment path :: (Files.segments path).dropLast.reverse := by
      rw [hreverse, List.dropWhile_cons_of_neg (by simpa using hlast)]
    simp only [hnamed, List.tail_cons, List.reverse_reverse, List.head?_cons, Option.getD_some] at h
    split at h
    · cases h
    · rename_i start hstart
      split_ifs at h
      split at h
      · cases h
      · rename_i hnode
        exact ⟨start, Bool.eq_false_iff.2 hempty, hstart, fun hfolder => hnode hfolder,
          (Except.ok.inj h).symm⟩

/-- **What was written is read back.** -/
theorem read_write (h : t.write path text = .ok t') : t'.read path = .ok text := by
  obtain ⟨start, hpath, hstart, hnode, rfl⟩ := exists_of_write h
  have hfollow : (t.putFile (start ++ [lastSegment path]) (.text text)).follow (t.origin path)
      (Files.segments path).dropLast = .ok start := follow_putFile hnode hstart
  have horigin : (t.putFile (start ++ [lastSegment path]) (.text text)).origin path
      = t.origin path := rfl
  have hlookup : (t.putFile (start ++ [lastSegment path]) (.text text)).lookup path
      = .ok (.file (.text text)) := by
    rw [lookup, hpath, horigin, hfollow]
    simp only [file?_putFile, if_pos]
    rfl
  rw [read, hlookup]

/-! ## Making folders -/

/-- Making a folder leaves the files alone. -/
theorem files_makeFolder (h : t.makeFolder path = .ok t') : t'.files = t.files := by
  rw [makeFolder] at h
  split_ifs at h
  split at h
  · cases h
  · dsimp only at h
    split_ifs at h
    split at h
    · cases h
    · rw [← Except.ok.inj h]

/-- A failure to make a folder that is there already is no failure. -/
theorem eq_of_accept {result : Except FileError FileTree}
    (h : makeFoldersWithin.accept t path result = .ok t') : result = .ok t' ∨ t' = t := by
  cases result with
  | ok u => exact .inl h
  | error e =>
    rw [makeFoldersWithin.accept] at h
    split_ifs at h
    exact .inr (Except.ok.inj h).symm

/-- Making a folder with all that lead to it leaves the files alone too. -/
theorem files_makeFoldersWithin {fuel : ℕ} (h : makeFoldersWithin fuel t path = .ok t') :
    t'.files = t.files := by
  induction fuel generalizing t t' path with
  | zero => cases h
  | succ fuel ih =>
    rw [makeFoldersWithin] at h
    split_ifs at h
    · rw [← Except.ok.inj h]
    · split at h
      · rename_i hmade
        obtain rfl := Except.ok.inj h
        exact files_makeFolder hmade
      · split at h
        · cases h
        · rename_i above habove
          obtain hmade | rfl := eq_of_accept h
          · exact (files_makeFolder hmade).trans (ih habove)
          · exact ih habove
      · obtain hmade | rfl := eq_of_accept h
        · cases hmade
        · rfl

/-- **Making folders leaves all files as they are.** -/
theorem files_makeFolders (h : t.makeFolders path = .ok t') : t'.files = t.files :=
  files_makeFoldersWithin h

end Exemplar.FileTree
