import CrateAudit.Store

namespace CrateAudit

namespace Path

theorem splitSlash_ne_nil (cs : List Char) : splitSlash cs ≠ [] := by
  cases cs with
  | nil => simp [splitSlash]
  | cons c cs =>
    rw [splitSlash]
    split
    · simp
    · split <;> simp

theorem not_mem_splitSlash (cs : List Char) : ∀ q ∈ splitSlash cs, '/' ∉ q := by
  induction cs with
  | nil => simp [splitSlash]
  | cons c cs ih =>
    rw [splitSlash]
    split
    · next h => exact absurd h (splitSlash_ne_nil cs)
    · next first rest h =>
      rw [h] at ih
      split
      · rw [List.forall_mem_cons]
        exact ⟨by simp, ih⟩
      · next hc =>
        rw [List.forall_mem_cons] at ih ⊢
        refine ⟨?_, ih.2⟩
        rw [List.mem_cons, not_or]
        exact ⟨Ne.symm hc, ih.1⟩

theorem mem_splitSlash {c : Char} (hc : c ≠ '/') {cs : List Char} (h : c ∈ cs) :
    ∃ q ∈ splitSlash cs, c ∈ q := by
  induction cs with
  | nil => cases h
  | cons d cs ih =>
    rw [splitSlash]
    split
    · next hnil => exact absurd hnil (splitSlash_ne_nil cs)
    · next first rest hcs =>
      rw [hcs] at ih
      rcases List.mem_cons.mp h with rfl | h
      · rw [if_neg hc]
        exact ⟨c :: first, List.mem_cons_self, List.mem_cons_self⟩
      · obtain ⟨q, hq, hmem⟩ := ih h
        split
        · exact ⟨q, List.mem_cons_of_mem _ hq, hmem⟩
        · rcases List.mem_cons.mp hq with rfl | hq
          · exact ⟨d :: q, List.mem_cons_self, List.mem_cons_of_mem _ hmem⟩
          · exact ⟨q, List.mem_cons_of_mem _ hq, hmem⟩

/-- A path that goes only downwards, and does not start with a tilde. -/
def isDirect (p : Path) : Bool :=
  p.parts.all (· ≠ "..") && !(p.root = "" && p.parts.head?.any (·.startsWith "~"))

theorem size_root_le (path : String) : (ofString path).root.utf8ByteSize ≤ 2 := by
  simp only [ofString]
  split <;> decide

theorem mem_parts {c : Char} (hs : c ≠ '/') (hd : c ≠ '.') {path : String} (h : c ∈ path.toList) :
    ∃ part ∈ (ofString path).parts, c ∈ part.toList := by
  obtain ⟨q, hq, hc⟩ := mem_splitSlash hs h
  refine ⟨String.ofList q, ?_, by rwa [String.toList_ofList]⟩
  simp only [ofString, List.mem_filter, List.mem_map, decide_eq_true_eq]
  refine ⟨⟨q, hq, rfl⟩, ?_, ?_⟩
  · intro he
    have hnil := congrArg String.toList he
    rw [String.toList_ofList] at hnil
    rw [hnil] at hc
    cases hc
  · intro he
    have hdot := congrArg String.toList he
    rw [String.toList_ofList] at hdot
    rw [hdot] at hc
    exact hd (by simpa using hc)

theorem parts_ne_slash (path : String) : ∀ part ∈ (ofString path).parts, part ≠ "/" := by
  intro part hpart
  simp only [ofString, List.mem_filter, List.mem_map] at hpart
  obtain ⟨⟨q, hq, rfl⟩, -⟩ := hpart
  intro h
  have hs := congrArg String.toList h
  rw [String.toList_ofList] at hs
  exact not_mem_splitSlash _ q hq (by rw [hs]; decide)

end Path

namespace Store

section Places

variable {s : Store} {place q : List String} {f : FileState}

theorem not_outer_of_missing (h : s.at? place = .missing) :
    isOuter place = false ∧ ¬(place = nullDevice ∨ place = fullDevice) := by
  unfold at? at h
  split at h
  · cases h
  · next ho =>
    split at h
    · cases h
    · next hd => exact ⟨by simpa using ho, hd⟩

theorem at?_put_self (h : s.at? place = .missing) : (s.put place f).at? place = f := by
  obtain ⟨ho, hd⟩ := not_outer_of_missing h
  simp [at?, ho, hd, put]

theorem at?_put_of_ne (h : place ≠ q) : (s.put place f).at? q = s.at? q := by
  simp only [at?, put, Table.get?_put_of_ne _ _ h]

theorem at?_put (h : s.at? place = .missing) (f : FileState) (q : List String) :
    (s.put place f).at? q = if q = place then f else s.at? q := by
  split
  next hq => rw [hq, at?_put_self h]
  next hq => rw [at?_put_of_ne (Ne.symm hq)]

/-- Making directories changes nothing apart from the places on the way. -/
theorem at?_makeDirectories {n : Nat} (h : ∀ k, 0 < k → k ≤ n → place.take k ≠ q) :
    (s.makeDirectories place n).at? q = s.at? q := by
  induction n with
  | zero => rfl
  | succ n ih =>
    have ih := ih fun k hk hn => h k hk (by omega)
    have hne := h (n + 1) (by omega) (by omega)
    rw [makeDirectories]
    split
    · split
      · rw [at?_put_of_ne hne, ih]
      · exact ih
    · exact ih

end Places

section Opened

variable {s opened : Store} {path : String} {place : List String}

theorem take_ne_self {k : Nat} (hk : k ≤ place.length - 1) (h0 : 0 < k) : place.take k ≠ place := by
  intro h
  have := congrArg List.length h
  rw [List.length_take] at this
  omega

theorem openAppend_eq (h : s.openAppend path = .ok (place, opened)) (hm : s.at? place = .missing) :
    ∃ home parts, outset (Path.ofString path) = .ok (home, parts) ∧ place = parts.foldl step home ∧
      ("/".intercalate place).utf8ByteSize ≤ maxPath ∧
      (s.makeDirectories place (place.length - 1)).hasRoom place ∧
      opened = (s.makeDirectories place (place.length - 1)).put place (.text "") := by
  unfold openAppend at h
  cases ho : outset (Path.ofString path) with
  | error e => rw [ho] at h; cases h
  | ok found =>
    obtain ⟨home, parts⟩ := found
    rw [ho] at h
    simp only [bind, Except.bind] at h
    generalize hplace : parts.foldl step home = place' at h
    split at h
    · cases h
    split at h
    · cases h
    next hsize =>
      split at h
      · cases h
      · split at h
        next hroom =>
          cases h
          exact ⟨home, parts, rfl, hplace.symm, Nat.not_lt.mp hsize, hroom, rfl⟩
        next => cases h
      next hfree =>
        cases h
        exact absurd ((at?_makeDirectories fun k h0 hk => take_ne_self hk h0).trans hm) hfree

theorem at?_append {s : Store} {place : List String} (h : s.at? place = .missing) (written : String)
    (q : List String) :
    ((s.put place (.text "")).append place written).at? q =
      if q = place then .text written else s.at? q := by
  rw [append, at?_put_self h]
  obtain ⟨ho, hd⟩ := not_outer_of_missing h
  by_cases hq : q = place
  · rw [if_pos hq, hq]
    simp [at?, ho, hd, put]
  · rw [if_neg hq]
    dsimp only
    rw [at?_put_of_ne (Ne.symm hq), at?_put_of_ne (Ne.symm hq)]

end Opened

section Looking

variable {s : Store}

theorem eq_of_follow? {place found : List String} {parts : List String}
    (h : s.follow? place parts = some found) :
    found = parts.foldl step place := by
  induction parts generalizing place with
  | nil => exact (Option.some.inj h).symm
  | cons part parts ih =>
    rw [follow?] at h
    split at h
    · exact ih h
    · cases h

theorem look_of_outset {path : String} {place : List String}
    (hplace : place = (Path.ofString path).parts.foldl step (start (Path.ofString path))) :
    s.look path = .missing ∨ s.look path = s.at? place := by
  unfold look
  dsimp only
  split
  · exact .inl rfl
  · split
    · next h => exact .inr (by rw [hplace, eq_of_follow? h])
    · exact .inl rfl

end Looking

section Rooted

/-- A place below the root of the file system. -/
def isRooted (place : List String) : Bool :=
  place.head? = some "/"

theorem isRooted_parent (place : List String) : isRooted (parent place) = isRooted place := by
  unfold parent
  split
  · rfl
  next hroot =>
    split
    next hdots =>
      cases place with
      | nil => rfl
      | cons p rest =>
        obtain rfl : p = ".." := by simpa using (List.all_eq_true.mp hdots) p List.mem_cons_self
        rfl
    next =>
      match place with
      | [] => rfl
      | [p] => simpa [isRooted] using hroot
      | p :: q :: rest => rfl

theorem isRooted_step {part : String} (hp : part ≠ "/") (place : List String) :
    isRooted (step place part) = isRooted place := by
  unfold step
  split
  · exact isRooted_parent place
  · cases place with
    | nil => simp [isRooted, hp]
    | cons p rest => rfl

theorem isRooted_foldl {parts : List String} (hparts : ∀ part ∈ parts, part ≠ "/")
    (place : List String) :
    isRooted (parts.foldl step place) = isRooted place := by
  induction parts generalizing place with
  | nil => rfl
  | cons part parts ih =>
    rw [List.forall_mem_cons] at hparts
    rw [List.foldl_cons, ih hparts.2, isRooted_step hparts.1]

theorem outset_cases {p : Path} {home parts : List String} (h : outset p = .ok (home, parts)) :
    (home = start p ∧ parts = p.parts) ∨
      (p.root = "" ∧ isRooted home ∧
        ∃ first, p.parts = first :: parts ∧ '\x00' ∉ first.toList) := by
  unfold outset at h
  split at h
  next first rest hroot hparts =>
    split at h
    next htilde =>
      rw [Bool.and_eq_true] at htilde
      cases hget : homes.get? first with
      | none => rw [hget] at h; cases h
      | some found =>
        rw [hget] at h
        cases h
        have hrooted : ∀ entry ∈ homes, isRooted entry.2 := by decide
        obtain ⟨entry, hentry, rfl⟩ := Option.map_eq_some_iff.mp hget
        refine .inr ⟨hroot, hrooted entry (List.mem_of_find?_eq_some hentry), first, hparts, ?_⟩
        simpa using htilde.2
    next =>
      cases h
      exact .inl ⟨rfl, rfl⟩
  next =>
    cases h
    exact .inl ⟨rfl, rfl⟩

theorem isRooted_take {place : List String} (h : isRooted place) {k : Nat} (hk : 0 < k) :
    isRooted (place.take k) := by
  obtain ⟨k, rfl⟩ : ∃ n, k = n + 1 := ⟨k - 1, by omega⟩
  cases place with
  | nil => exact h
  | cons p rest => exact h

variable {s s' : Store} (hs : ∀ q, isRooted q = false → s.at? q = s'.at? q)
include hs

theorem follow?_congr {parts : List String} (hparts : ∀ part ∈ parts, part ≠ "/")
    {place : List String} (hplace : isRooted place = false) :
    s.follow? place parts = s'.follow? place parts := by
  induction parts generalizing place with
  | nil => rfl
  | cons part parts ih =>
    rw [List.forall_mem_cons] at hparts
    have hd : s.isDirectory place = s'.isDirectory place :=
      by rw [isDirectory, isDirectory, hs place hplace]
    rw [follow?, follow?, hd, ih hparts.2 (by rw [isRooted_step hparts.1, hplace])]

/-- What is found under a path that does not start at the root does not depend on what is below the
root. -/
theorem look_congr {path : String} (hroot : (Path.ofString path).root = "") :
    s.look path = s'.look path := by
  have hparts := Path.parts_ne_slash path
  have hstart : start (Path.ofString path) = [] := if_pos hroot
  have hfollow : s.follow? [] (Path.ofString path).parts =
      s'.follow? [] (Path.ofString path).parts :=
    follow?_congr hs hparts rfl
  simp only [look, hstart, hfollow]
  cases hf : s'.follow? [] (Path.ofString path).parts with
  | none => rfl
  | some place =>
    have hplace : isRooted place = false := by
      rw [eq_of_follow? hf, isRooted_foldl hparts]
      rfl
    simp only [hs place hplace]

end Rooted

theorem not_mem_of_openAppend {s : Store} {path : String} {found : List String × Store}
    (h : s.openAppend path = .ok found) : '\x00' ∉ path.toList := by
  intro hmem
  obtain ⟨part, hpart, hnull⟩ := Path.mem_parts (by decide) (by decide) hmem
  unfold openAppend at h
  cases ho : outset (Path.ofString path) with
  | error e => rw [ho] at h; cases h
  | ok start =>
    obtain ⟨home, parts⟩ := start
    have hmem : part ∈ parts := by
      rcases outset_cases ho with ⟨-, rfl⟩ | ⟨-, -, first, hfirst, hfree⟩
      · exact hpart
      · rw [hfirst, List.mem_cons] at hpart
        rcases hpart with rfl | hpart
        · exact absurd hnull hfree
        · exact hpart
    have hany : parts.any fun part => part.toList.contains '\x00' := by
      rw [List.any_eq_true]
      exact ⟨part, hmem, by simpa using hnull⟩
    rw [ho] at h
    simp only [bind, Except.bind, hany, if_true] at h
    cases h

/-- Under the path of a file that was opened where nothing was, there is what has been written, if
the path leads to it at all. -/
theorem look_append {s opened : Store} {path : String} {place : List String}
    (hopen : s.openAppend path = .ok (place, opened)) (hplace : s.at? place = .missing)
    (hpath : s.look path = .missing) (written : String) :
    (opened.append place written).look path = .missing ∨
    (opened.append place written).look path = .text written := by
  obtain ⟨home, parts, houtset, hfold, -, -, rfl⟩ := openAppend_eq hopen hplace
  have hmade : (s.makeDirectories place (place.length - 1)).at? place = .missing :=
    (at?_makeDirectories fun k h0 hk => take_ne_self hk h0).trans hplace
  have hat := at?_append hmade written
  rcases outset_cases houtset with ⟨rfl, rfl⟩ | ⟨hroot, hrooted, first, hfirst, -⟩
  · rcases look_of_outset
      (s := ((s.makeDirectories place (place.length - 1)).put place (.text "")).append place
      written) hfold with h | h
    · exact .inl h
    · exact .inr (by rw [h, hat, if_pos rfl])
  · -- a file at a home is not where the path leads when it is followed as it stands
    have hparts : ∀ part ∈ parts, part ≠ "/" := by
      have hall := Path.parts_ne_slash path
      rw [hfirst, List.forall_mem_cons] at hall
      exact hall.2
    have hplace' : isRooted place := by rw [hfold, isRooted_foldl hparts, hrooted]
    left
    rw [← hpath]
    apply look_congr _ hroot
    intro q hq
    have hne : ∀ {p : List String}, isRooted p → p ≠ q := by
      rintro p hp rfl
      rw [hq] at hp
      cases hp
    rw [hat, if_neg (Ne.symm (hne hplace'))]
    exact at?_makeDirectories fun k h0 _ => hne (isRooted_take hplace' h0)

section Direct

/-- A store in which whatever is there stands in a directory. -/
def Sound (s : Store) : Prop :=
  ∀ place, s.at? place ≠ .missing → s.isDirectory (parent place)

theorem isDirectory_congr {s s' : Store} {place : List String} (h : s.at? place = s'.at? place) :
    s.isDirectory place = s'.isDirectory place := by
  rw [isDirectory, isDirectory, h]

theorem not_missing_of_isDirectory {s : Store} {place : List String} (h : s.isDirectory place) :
    s.at? place ≠ .missing := by
  intro hm
  rw [isDirectory, hm] at h
  cases h

theorem isOuter_parent {place : List String} (h : isOuter place) : isOuter (parent place) := by
  unfold isOuter at h
  split at h
  · rfl
  next d _ =>
    have hstandard : ∀ d ∈ standardDirectories, isOuter (parent ("/" :: d)) := by decide
    exact hstandard d (by simpa using h)
  next hroot hslash =>
    have hdots : parent place = ".." :: place := by
      rw [parent, if_neg (by simpa using hroot), if_pos h]
    rw [hdots]
    simpa [isOuter] using h

theorem sound_of_entries {s : Store} (h : ∀ entry ∈ s.entries, s.isDirectory (parent entry.1)) :
    s.Sound := by
  intro place hplace
  unfold at? at hplace
  split at hplace
  next houter =>
    simp only [isDirectory, at?, isOuter_parent houter, if_true]
  next =>
    split at hplace
    next hdevice => rcases hdevice with rfl | rfl <;> rfl
    next =>
      cases hget : s.entries.get? place with
      | none =>
        rw [hget] at hplace
        exact absurd rfl hplace
      | some f =>
        obtain ⟨entry, hentry, -⟩ := Option.map_eq_some_iff.mp hget
        have hkey : entry.1 = place := by simpa using List.find?_some hentry
        rw [← hkey]
        exact h entry (List.mem_of_find?_eq_some hentry)

/-- A store stays sound when something comes to stand in a directory where nothing was. -/
theorem Sound.add {s s' : Store} {place : List String} {f : FileState} (hs : s.Sound)
    (hm : s.at? place = .missing) (hroom : s.isDirectory (parent place))
    (hat : ∀ q, s'.at? q = if q = place then f else s.at? q) : s'.Sound := by
  have hdir : ∀ q, s.isDirectory q → s'.isDirectory q := by
    intro q hq
    have hne : q ≠ place := by
      rintro rfl
      exact not_missing_of_isDirectory hq hm
    rw [← isDirectory_congr ((hat q).trans (if_neg hne)).symm]
    exact hq
  intro q hq
  by_cases h : q = place
  · rw [h]
    exact hdir _ hroom
  · rw [hat, if_neg h] at hq
    exact hdir _ (hs q hq)

theorem Sound.makeDirectories {s : Store} (hs : s.Sound) (place : List String) (n : Nat) :
    (s.makeDirectories place n).Sound := by
  induction n with
  | zero => exact hs
  | succ n ih =>
    rw [Store.makeDirectories]
    split
    next hm =>
      split
      next hroom =>
        rw [hasRoom, Bool.and_eq_true] at hroom
        exact ih.add hm hroom.1 (at?_put hm .directory)
      next => exact ih
    next => exact ih

def isPlainName (part : String) : Bool :=
  part ≠ ".." ∧ part ≠ "/"

theorem parent_append {part : String} (h : isPlainName part) (place : List String) :
    parent (place ++ [part]) = place := by
  simp only [isPlainName, decide_eq_true_eq] at h
  have hroot : (place ++ [part] == ["/"]) = false := by
    rw [beq_eq_false_iff_ne]
    intro he
    have hlast := congrArg List.getLast? he
    simp only [List.getLast?_append, List.getLast?_singleton, Option.some_or,
      Option.some.injEq] at hlast
    exact h.2 hlast
  have hdots : (place ++ [part]).all (· == "..") = false := by simp [h.1]
  rw [parent, hroot, hdots]
  simp

theorem step_of_isPlainName {part : String} (h : isPlainName part) (place : List String) :
    step place part = place ++ [part] := by
  simp only [isPlainName, decide_eq_true_eq] at h
  rw [step, if_neg h.1]

theorem foldl_step {parts : List String} (h : parts.all isPlainName) (place : List String) :
    parts.foldl step place = place ++ parts := by
  induction parts generalizing place with
  | nil => rw [List.foldl_nil, List.append_nil]
  | cons part parts ih =>
    rw [List.all_cons, Bool.and_eq_true] at h
    rw [List.foldl_cons, step_of_isPlainName h.1, ih h.2, List.append_assoc, List.singleton_append]

theorem outset_of_isDirect {p : Path} (h : p.isDirect) : outset p = .ok (start p, p.parts) := by
  rw [Path.isDirect, Bool.and_eq_true] at h
  unfold outset
  split
  next first rest hroot hparts =>
    have ht : first.startsWith "~" = false := by simpa [hroot, hparts] using h.2
    rw [ht]
    rfl
  next => rfl

theorem size_text_le {path : String} (h : (Path.ofString path).parts ≠ []) :
    (Path.ofString path).text.utf8ByteSize ≤
      ("/".intercalate
          (start (Path.ofString path) ++ (Path.ofString path).parts)).utf8ByteSize := by
  have hslash : "/".utf8ByteSize = 1 := rfl
  have hsize := Path.size_root_le path
  rw [Path.text, if_neg (by simp [h]), String.utf8ByteSize_append]
  by_cases hroot : (Path.ofString path).root = ""
  · simp [start, hroot]
  · rw [start, if_neg hroot, List.singleton_append, String.intercalate_cons_of_ne_nil h,
      String.utf8ByteSize_append, String.utf8ByteSize_append]
    omega

section Sound

variable {s : Store} (hs : s.Sound)
include hs

theorem Sound.isDirectory_of_append {more : List String} (hmore : more.all isPlainName)
    {place : List String} (h : s.isDirectory (place ++ more)) : s.isDirectory place := by
  induction more generalizing place with
  | nil => rwa [List.append_nil] at h
  | cons part more ih =>
    rw [List.all_cons, Bool.and_eq_true] at hmore
    have hd : s.isDirectory (place ++ [part]) :=
      ih hmore.2 (by rwa [List.append_assoc, List.singleton_append])
    have hp := hs _ (not_missing_of_isDirectory hd)
    rwa [parent_append hmore.1] at hp

theorem Sound.follow?_eq {parts : List String} (hparts : parts.all isPlainName)
    {place : List String} (h : s.isDirectory (place ++ parts.dropLast)) :
    s.follow? place parts = some (place ++ parts) := by
  induction parts generalizing place with
  | nil => rw [follow?, List.append_nil]
  | cons part parts ih =>
    have hinit : (part :: parts).dropLast.all isPlainName := by
      rw [List.all_eq_true] at hparts ⊢
      exact fun p hp => hparts p (List.dropLast_subset _ hp)
    rw [List.all_cons, Bool.and_eq_true] at hparts
    rw [follow?, if_pos (hs.isDirectory_of_append hinit h), step_of_isPlainName hparts.1]
    cases parts with
    | nil => rfl
    | cons q parts =>
      rw [ih hparts.2 (by simpa using h), List.append_assoc, List.singleton_append]

end Sound

/-- In a sound store a direct path leads to the file that was opened under it. -/
theorem look_append_of_isDirect {s opened : Store} {path : String} {place : List String}
    (hopen : s.openAppend path = .ok (place, opened)) (hplace : s.at? place = .missing)
    (hs : s.Sound) (hpath : (Path.ofString path).isDirect) (written : String) :
    (opened.append place written).look path = .text written := by
  obtain ⟨home, parts, houtset, hfold, hsize, hroom, rfl⟩ := openAppend_eq hopen hplace
  rw [outset_of_isDirect hpath] at houtset
  cases houtset
  have hplain : (Path.ofString path).parts.all isPlainName := by
    rw [Path.isDirect, Bool.and_eq_true, List.all_eq_true] at hpath
    rw [List.all_eq_true]
    intro part hpart
    simpa [isPlainName, Path.parts_ne_slash path part hpart] using hpath.1 part hpart
  rw [foldl_step hplain] at hfold
  have hne : (Path.ofString path).parts ≠ [] := by
    intro hnil
    rw [hnil, List.append_nil, start] at hfold
    split at hfold <;> (subst hfold; cases hplace)
  have hmade : (s.makeDirectories place (place.length - 1)).at? place = .missing :=
    (at?_makeDirectories fun k h0 hk => take_ne_self hk h0).trans hplace
  have hat := at?_append hmade written
  rw [hasRoom, Bool.and_eq_true] at hroom
  have hsound := (hs.makeDirectories place (place.length - 1)).add hmade hroom.1 hat
  have hfile := (hat place).trans (if_pos rfl)
  -- the file stands in a directory, and so does every directory on the way to it
  have hparent := hsound place (by rw [hfile]; nofun)
  generalize ((s.makeDirectories place (place.length - 1)).put place (.text "")).append place
    written = final at *
  have hlast : parent place =
      start (Path.ofString path) ++ (Path.ofString path).parts.dropLast := by
    have hmem := List.all_eq_true.mp hplain _ (List.getLast_mem hne)
    rw [hfold, ← List.dropLast_concat_getLast hne, ← List.append_assoc, parent_append hmem]
    simp
  rw [hlast] at hparent
  have hshort := size_text_le hne
  rw [← hfold] at hshort
  simp only [look]
  rw [if_neg (by omega), hsound.follow?_eq hplain hparent, ← hfold]
  exact hfile

end Direct

end Store

end CrateAudit
