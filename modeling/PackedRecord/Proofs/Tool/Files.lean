import PackedRecord.Proofs.Outcomes
import PackedRecord.Tool.Directory

/-! # Files — writing one leaves the others as they are

    A path is followed through folders, and writing a file makes or removes
    none of them: what is a folder afterwards was one before
    (`isFolder_put`).  So every path leads where it led, and what is found
    there is the same, except at the one place that was written.  Paths that
    are spelled differently may lead there, and all of them see the new
    content. -/

namespace PackedRecord.Tool

/-- A text is read from the bytes that it is written as, and from no others. -/
theorem decodeText_eq_ok_iff {bytes : ByteArray} {text : String} :
    decodeText bytes = .ok text ↔ bytes = text.toUTF8 := by
  rw [decodeText, String.fromUTF8?, String.toUTF8_eq_toByteArray]
  constructor
  · intro h
    split at h
    · next found hfound =>
        obtain rfl := Except.ok.inj h
        split at hfound
        · obtain rfl := Option.some.inj hfound
          rfl
        · exact nomatch hfound
    · exact nomatch h
  · rintro rfl
    rw [dif_pos text.isValidUTF8]
    rfl

namespace Directory

variable {d : Directory} {place parent : List String}

/-! ## Folders -/

theorem isFolder_iff (d : Directory) (place : List String) :
    d.isFolder place = true ↔ (∀ step ∈ place, step = ".." ∨ step = "/")
      ∨ (∃ folder ∈ d.folders, place <+: folder)
      ∨ ∃ file ∈ d.files, place <+: file.1 ∧ place ≠ file.1 := by
  simp [isFolder, or_assoc]

/-- Whatever is above a folder is a folder. -/
theorem isFolder_upward (hupward : parent <+: place) (h : d.isFolder place = true) :
    d.isFolder parent = true := by
  rw [isFolder_iff] at h ⊢
  rcases h with hall | ⟨folder, hfolder, hbelow⟩ | ⟨file, hfile, hbelow, hne⟩
  · exact Or.inl fun step hstep => hall step (hupward.subset hstep)
  · exact Or.inr (Or.inl ⟨folder, hfolder, hupward.trans hbelow⟩)
  · refine Or.inr (Or.inr ⟨file, hfile, hupward.trans hbelow, fun hparent => hne ?_⟩)
    exact hbelow.eq_of_length_le (hparent ▸ hupward.length_le)

theorem isFolder_above (h : d.isFolder place = true) : d.isFolder (above place) = true := by
  rw [above]
  split
  · exact h
  · split
    · next hall =>
        have hup : ∀ step ∈ place ++ [".."], step = ".." ∨ step = "/" := by
          intro step hstep
          rcases List.mem_append.mp hstep with hstep | hstep
          · exact Or.inl (of_decide_eq_true (List.all_eq_true.mp hall step hstep))
          · exact Or.inl (List.mem_singleton.mp hstep)
        exact (isFolder_iff d _).mpr (Or.inl hup)
    · exact isFolder_upward place.dropLast_prefix h

/-! ## Following paths -/

/-- A step leads on from a folder, under a name that is not too long. -/
theorem enter_eq_ok_iff {part : String} {next : List String} :
    d.enter place part = .ok next
      ↔ d.isFolder place = true ∧ part.utf8ByteSize ≤ nameLimit ∧ next = onward place part := by
  rw [enter]
  by_cases hfolder : d.isFolder place = true
  · rw [if_pos hfolder]
    by_cases hlong : nameLimit < part.utf8ByteSize
    · rw [if_pos hlong]
      exact iff_of_false Outcome.error_ne_ok fun h => Nat.not_le.mpr hlong h.2.1
    · rw [if_neg hlong, Except.ok.injEq]
      exact ⟨fun h => ⟨hfolder, Nat.not_lt.mp hlong, h.symm⟩, fun h => h.2.2.symm⟩
  · rw [if_neg hfolder]
    refine iff_of_false (fun h => ?_) fun h => hfolder h.1
    split at h <;> exact nomatch h

/-- Out of a folder leads nothing but a name. -/
theorem isFolder_onward (h : d.isFolder place = true) (part : String) :
    d.isFolder (onward place part) = true ∨ part ≠ "" ∧ onward place part = place ++ [part] := by
  rw [onward]
  split
  · exact Or.inl h
  · next hstay =>
      split
      · exact Or.inl (isFolder_above h)
      · exact Or.inr ⟨fun hempty => hstay (Or.inl hempty), rfl⟩

/-- Where a path ends that leads to no folder: at a name in a folder. -/
theorem exists_parent_of_follow {path : String} {steps : List String}
    (h : d.follow path steps = .ok place) (hplace : d.isFolder place = false) :
    steps.getLast? ≠ some ""
      ∧ ∃ parent name, place = parent ++ [name] ∧ d.isFolder parent = true := by
  rw [follow] at h
  split at h
  · exact nomatch h
  · split at h
    · exact nomatch h
    · rcases List.eq_nil_or_concat steps with rfl | ⟨before, last, rfl⟩
      · -- the origin is a folder
        obtain rfl := Except.ok.inj h
        rw [origin] at hplace
        split at hplace <;> exact nomatch hplace
      · rw [List.concat_eq_append, List.foldlM_append] at h
        obtain ⟨parent, -, h⟩ := Outcome.of_bind_ok h
        rw [List.foldlM_cons] at h
        obtain ⟨next, hnext, h⟩ := Outcome.of_bind_ok h
        obtain rfl := Except.ok.inj h
        obtain ⟨hparent, -, rfl⟩ := enter_eq_ok_iff.mp hnext
        rcases isFolder_onward hparent last with hfolder | ⟨hname, honward⟩
        · exact absurd (hfolder.symm.trans hplace) (by decide)
        · refine ⟨?_, parent, last, honward, hparent⟩
          rw [List.concat_eq_append, List.getLast?_concat]
          exact fun hlast => hname (Option.some.inj hlast)

/-! ## Putting a file into its place -/

/-- A file put into a folder makes no folder and removes none. -/
theorem isFolder_put {name : String} (hparent : d.isFolder parent = true) (content : ByteArray)
    (p : List String) : (d.put (parent ++ [name]) content).isFolder p = d.isFolder p := by
  rw [Bool.eq_iff_iff, isFolder_iff, isFolder_iff]
  constructor
  · rintro (hall | hfolder | ⟨file, hfile, hbelow, hne⟩)
    · exact Or.inl hall
    · exact Or.inr (Or.inl hfolder)
    · rcases List.mem_cons.mp hfile with rfl | hfile
      · -- above the file that was put there are only folders
        rcases List.prefix_concat_iff.mp hbelow with heq | habove
        · exact absurd heq hne
        · exact (isFolder_iff d p).mp (isFolder_upward habove hparent)
      · exact Or.inr (Or.inr ⟨file, (List.mem_filter.mp hfile).1, hbelow, hne⟩)
  · rintro (hall | hfolder | ⟨file, hfile, hbelow, hne⟩)
    · exact Or.inl hall
    · exact Or.inr (Or.inl hfolder)
    · by_cases hsame : file.1 = parent ++ [name]
      · -- the file that was there before is replaced
        exact Or.inr (Or.inr ⟨_, List.mem_cons_self, hsame ▸ hbelow, hsame ▸ hne⟩)
      · have hkept : file ∈ d.files.filter (·.1 ≠ parent ++ [name]) :=
          List.mem_filter.mpr ⟨hfile, decide_eq_true hsame⟩
        exact Or.inr (Or.inr ⟨file, List.mem_cons_of_mem _ hkept, hbelow, hne⟩)

/-- A file that is put somewhere is found there, and everything else where it
    was. -/
theorem find?_put (d : Directory) (place p : List String) (content : ByteArray) :
    (d.put place content).find? p = if p = place then some content else d.find? p := by
  show List.lookup p ((place, content) :: d.files.filter (·.1 ≠ place)) = _
  by_cases hp : p = place
  · rw [if_pos hp, hp, List.lookup_cons_self]
  · have hbeq : (p == place) = false := beq_eq_false_iff_ne.mpr hp
    rw [if_neg hp, List.lookup_cons, hbeq]
    show List.lookup p (d.files.filter (·.1 ≠ place)) = List.lookup p d.files
    induction d.files with
    | nil => rfl
    | cons file rest ih =>
        obtain ⟨q, bytes⟩ := file
        by_cases hq : q = place
        · have hpq : (p == q) = false := by rwa [hq]
          rw [List.filter_cons_of_neg (by simpa using hq), ih, List.lookup_cons, hpq]
        · rw [List.filter_cons_of_pos (by simpa using hq), List.lookup_cons, List.lookup_cons, ih]

/-- Every path leads where it led before the file was put. -/
theorem follow_put {name : String} (hparent : d.isFolder parent = true) (content : ByteArray)
    (path : String) (steps q : List String) :
    (d.put (parent ++ [name]) content).follow path steps = .ok q ↔ d.follow path steps = .ok q := by
  rw [follow, follow]
  split
  · exact Iff.rfl
  · split
    · exact Iff.rfl
    · generalize origin path = start
      induction steps generalizing start with
      | nil => exact Iff.rfl
      | cons part rest ih =>
          rw [List.foldlM_cons, List.foldlM_cons]
          constructor
          · intro h
            obtain ⟨next, hnext, h⟩ := Outcome.of_bind_ok h
            rw [enter_eq_ok_iff, isFolder_put hparent, ← enter_eq_ok_iff] at hnext
            rw [hnext]
            exact (ih next).mp h
          · intro h
            obtain ⟨next, hnext, h⟩ := Outcome.of_bind_ok h
            rw [enter_eq_ok_iff, ← isFolder_put hparent content, ← enter_eq_ok_iff] at hnext
            rw [hnext]
            exact (ih next).mpr h

/-! ## Reading and writing -/

/-- To read a file is to follow its path and to find it there. -/
theorem read_eq_ok_iff {path : String} {content : ByteArray} :
    d.read path = .ok content
      ↔ ∃ place, d.follow path (parts path) = .ok place ∧ d.find? place = some content := by
  rw [read]
  constructor
  · intro h
    obtain ⟨place, hplace, h⟩ := Outcome.of_bind_ok h
    refine ⟨place, hplace, ?_⟩
    split at h
    · next found hfound =>
        rw [hfound]
        exact congrArg some (Except.ok.inj h)
    · exact nomatch h
  · rintro ⟨place, hplace, hfound⟩
    simp only [hplace, bind, Except.bind, hfound]

theorem readText_eq_ok_iff {path text : String} :
    d.readText path = .ok text ↔ d.read path = .ok text.toUTF8 := by
  rw [readText]
  constructor
  · intro h
    obtain ⟨bytes, hread, hdecode⟩ := Outcome.of_bind_ok h
    rwa [decodeText_eq_ok_iff.mp hdecode] at hread
  · intro h
    rw [h]
    exact decodeText_eq_ok_iff.mpr rfl

/-- A path that leads to a place where a file is or can be made. -/
def Writable (d : Directory) (path : String) (place : List String) : Prop :=
  d.follow path (parts path) = .ok place ∧ d.isFolder place = false

/-- Writing succeeds exactly where it can, and puts the file into its place. -/
theorem writeText_eq_ok_iff {path text : String} {after : Directory} :
    d.writeText path text = .ok after
      ↔ ∃ place, d.Writable path place ∧ after = d.put place text.toUTF8 := by
  have htarget : (parts path).getLast? ≠ some "" → targetParts path = parts path := by
    intro h
    rw [targetParts, if_neg h]
  constructor
  · intro h
    obtain ⟨place, hplace, h⟩ := Outcome.of_bind_ok h
    split at h
    · exact nomatch h
    · next hfolder =>
        have hnot : d.isFolder place = false := Bool.eq_false_iff.mpr hfolder
        obtain ⟨hlast, -⟩ := exists_parent_of_follow hplace hnot
        have hparts : (parts path).getLast? ≠ some "" := by
          intro hslash
          rw [targetParts, if_pos hslash, List.getLast?_concat] at hlast
          exact hlast rfl
        rw [htarget hparts] at hplace
        exact ⟨place, ⟨hplace, hnot⟩, (Except.ok.inj h).symm⟩
  · rintro ⟨place, ⟨hplace, hnot⟩, rfl⟩
    obtain ⟨hlast, -⟩ := exists_parent_of_follow hplace hnot
    rw [writeText, htarget hlast, hplace]
    show (if d.isFolder place = true then _ else _) = _
    rw [hnot]
    rfl

/-- What is found in a directory after a file was written: the file, under
    every path that leads to it, and all other files as they were. -/
theorem read_put {path : String} (h : d.Writable path place) (content : ByteArray) (other : String)
    (found : ByteArray) :
    (d.put place content).read other = .ok found
      ↔ if d.follow other (parts other) = .ok place then found = content
        else d.read other = .ok found := by
  obtain ⟨-, parent, name, rfl, hparent⟩ := exists_parent_of_follow h.1 h.2
  rw [read_eq_ok_iff]
  simp only [follow_put hparent, find?_put]
  split
  · next hother =>
      constructor
      · rintro ⟨q, hq, hfound⟩
        obtain rfl := Except.ok.inj (hother.symm.trans hq)
        rw [if_pos rfl] at hfound
        exact (Option.some.inj hfound).symm
      · rintro rfl
        exact ⟨_, hother, if_pos rfl⟩
  · next hother =>
      rw [read_eq_ok_iff]
      refine exists_congr fun q => and_congr_right fun hq => ?_
      have hne : q ≠ parent ++ [name] := fun hsame => hother (hsame ▸ hq)
      rw [if_neg hne]

end Directory

end PackedRecord.Tool
