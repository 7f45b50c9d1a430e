import Xv6.User.Regex

/-!
# grep

The function of that name in `grep.c`, from the results of `read` to the calls of `write`.
-/

namespace Xv6.Grep

def NEWLINE : UInt8 := 0x0A

/-- `sizeof(buf)` -/
def BUFSIZE : Nat := 1024

/-- `strchr(p, c)`: what stands before the first `c` and behind it. -/
def strchr (c : UInt8) : List UInt8 → Option (List UInt8 × List UInt8)
  | [] => none
  | b :: s =>
    if b = 0 then none
    else if b = c then some ([], s)
    else (strchr c s).map fun (line, rest) => (b :: line, rest)

variable {c : UInt8} {s line rest : List UInt8}

lemma strchr_eq_some (h : strchr c s = some (line, rest)) : s = line ++ c :: rest ∧ c ∉ line := by
  induction s generalizing line with
  | nil => cases h
  | cons b s ih =>
    rw [strchr] at h
    split_ifs at h with h0 hb
    · cases h
      exact ⟨hb ▸ rfl, List.not_mem_nil⟩
    · obtain ⟨⟨line', rest'⟩, h', he⟩ := Option.map_eq_some_iff.mp h
      cases he
      obtain ⟨rfl, hline⟩ := ih h'
      exact ⟨rfl, List.not_mem_cons_of_ne_of_not_mem (Ne.symm hb) hline⟩

lemma strchr_eq_none (hs : 0 ∉ s) (h : strchr c s = none) : c ∉ s := by
  induction s with
  | nil => exact List.not_mem_nil
  | cons b s ih =>
    rw [List.mem_cons, not_or] at hs
    rw [strchr, if_neg (Ne.symm hs.1)] at h
    split_ifs at h with hb
    exact List.not_mem_cons_of_ne_of_not_mem (Ne.symm hb) (ih hs.2 (Option.map_eq_none_iff.mp h))

lemma strchr_lt (h : strchr c s = some (line, rest)) : rest.length < s.length := by
  rw [(strchr_eq_some h).1, List.length_append, List.length_cons]
  omega

/-- The inner loop over `p`: what is written and what is left behind the last newline. -/
def scan (pattern s : List UInt8) : List (List UInt8) × List UInt8 :=
  match h : strchr NEWLINE s with
  | none => ([], s)
  | some (line, rest) =>
    have := strchr_lt h
    let (out, p) := scan pattern rest
    (if regexMatch pattern line then (line ++ [NEWLINE]) :: out else out, p)
termination_by s.length

/-- The `m` bytes that are kept for the next `read`; without a newline `p == buf`, and `m` is set
to 0. -/
def kept (pattern s : List UInt8) : List UInt8 :=
  if (scan pattern s).2.length = s.length then [] else (scan pattern s).2

/-- `grep(pattern, fd)`: the arguments of `write`, for the results of `read`. -/
def grep (pattern : List UInt8) : (buf : List UInt8) → (reads : List (List UInt8)) →
    List (List UInt8)
  | _, [] => []
  | buf, n :: reads =>
    if n = [] then []
    else (scan pattern (buf ++ n)).1 ++ grep pattern (kept pattern (buf ++ n)) reads

/-- Results that `read` may give: not empty before the end, and no longer than the room in `buf`. -/
def Admissible (pattern : List UInt8) : (buf : List UInt8) → (reads : List (List UInt8)) → Prop
  | _, [] => True
  | buf, n :: reads => n ≠ [] ∧ n.length ≤ BUFSIZE - buf.length - 1 ∧
      Admissible pattern (kept pattern (buf ++ n)) reads

/-- The lines that end in a newline, without it. -/
def lines (s : List UInt8) : List (List UInt8) := (s.splitOn NEWLINE).dropLast

/-- The lines that the pattern matches, as they are written. -/
def matching (pattern s : List UInt8) : List (List UInt8) :=
  ((lines s).filter (regexMatch pattern)).map (· ++ [NEWLINE])

/-- Before the last newline of the input every result of `read` has a newline. -/
def NewlineEach : List (List UInt8) → Prop
  | [] => True
  | n :: reads => (NEWLINE ∈ reads.flatten → NEWLINE ∈ n) ∧ NewlineEach reads

variable {pattern t buf n : List UInt8} {reads : List (List UInt8)}

/-! ### Lines -/

lemma lines_of_not_mem (h : NEWLINE ∉ s) : lines s = [] := by
  rw [lines, List.splitOn_eq_singleton h, List.dropLast_singleton]

lemma lines_append (h : NEWLINE ∉ line) :
    lines (line ++ NEWLINE :: rest) = line :: lines rest := by
  rw [lines, List.splitOn_append_cons_self_of_not_mem h, List.dropLast_cons_of_ne_nil
    (List.splitOn_ne_nil _ _), lines]

/-- The bytes of all lines. -/
def total (s : List UInt8) : Nat := (matching [] s).flatten.length

lemma regexMatch_nil (s : List UInt8) : regexMatch [] s = true := by
  cases s <;> rfl

lemma matching_append (h : NEWLINE ∉ line) : matching pattern (line ++ NEWLINE :: rest) =
    (if regexMatch pattern line then [line ++ [NEWLINE]] else []) ++ matching pattern rest := by
  rw [matching, lines_append h, List.filter_cons]
  split_ifs <;> rfl

lemma matching_of_not_mem (h : NEWLINE ∉ s) : matching pattern s = [] := by
  rw [matching, lines_of_not_mem h]
  rfl

lemma total_append (h : NEWLINE ∉ s) (ht : NEWLINE ∈ t) : total (s ++ t) = s.length + total t := by
  obtain ⟨l, r, rfl, hl⟩ := List.eq_append_cons_of_mem ht
  have hsl : NEWLINE ∉ s ++ l := List.not_mem_append h hl
  rw [total, total, ← List.append_assoc, matching_append hsl, matching_append hl]
  simp only [regexMatch_nil, if_true, List.flatten_append, List.flatten_singleton,
    List.length_append]
  omega

/-! ### One read -/

/-- What is written is what the lines before the rest call for. -/
lemma matching_scan (pattern s t : List UInt8) : matching pattern (s ++ t) =
    (scan pattern s).1 ++ matching pattern ((scan pattern s).2 ++ t) := by
  fun_induction scan pattern s with
  | case1 s h => rw [List.nil_append]
  | case2 s line rest h hlt out p hrec ih =>
    obtain ⟨rfl, hline⟩ := strchr_eq_some h
    rw [hrec] at ih
    rw [List.append_assoc, List.cons_append, matching_append hline, ih]
    split_ifs <;> rfl

lemma not_mem_scan (hs : 0 ∉ s) : NEWLINE ∉ (scan pattern s).2 := by
  fun_induction scan pattern s with
  | case1 s h => exact strchr_eq_none hs h
  | case2 s line rest h hlt out p hrec ih =>
    obtain ⟨rfl, hline⟩ := strchr_eq_some h
    rw [hrec] at ih
    exact ih fun hm => hs (List.mem_append_right _ (.tail _ hm))

lemma scan_suffix (pattern s : List UInt8) : (scan pattern s).2 <:+ s := by
  fun_induction scan pattern s with
  | case1 s h => exact List.suffix_rfl
  | case2 s line rest h hlt out p hrec ih =>
    rw [hrec] at ih
    rw [(strchr_eq_some h).1]
    exact ih.trans ((List.suffix_cons _ _).trans (List.suffix_append _ _))

/-- Without a newline nothing is written and nothing is kept. -/
lemma scan_of_not_mem (h : NEWLINE ∉ s) : (scan pattern s).1 = [] ∧ kept pattern s = [] := by
  have hnone : strchr NEWLINE s = none := by
    rcases hq : strchr NEWLINE s with _ | ⟨line, rest⟩
    · rfl
    · exact absurd ((strchr_eq_some hq).1 ▸ List.mem_append_right _ List.mem_cons_self) h
  rw [kept, scan]
  split
  · exact ⟨rfl, if_pos rfl⟩
  · rename_i hq
    rw [hnone] at hq
    cases hq

/-- With one the beginning of the next line is kept. -/
lemma kept_of_mem (hs : 0 ∉ s) (h : NEWLINE ∈ s) : kept pattern s = (scan pattern s).2 := by
  refine if_neg fun hlen => ?_
  rw [scan] at hlen
  split at hlen
  · rename_i hq
    exact strchr_eq_none hs hq h
  · rename_i line rest hq
    have hle := (scan_suffix pattern rest).length_le
    have hlt := strchr_lt hq
    dsimp only at hlen
    omega

lemma kept_length_le (pattern s : List UInt8) : (kept pattern s).length ≤ s.length := by
  rw [kept]
  split_ifs
  · exact Nat.zero_le _
  · exact (scan_suffix pattern s).length_le

/-! ### All reads -/

lemma grep_cons_of_mem (hs : 0 ∉ buf ++ n) (h : NEWLINE ∈ n) : grep pattern buf (n :: reads) =
    (scan pattern (buf ++ n)).1 ++ grep pattern (scan pattern (buf ++ n)).2 reads := by
  rw [grep, if_neg (List.ne_nil_of_mem h), kept_of_mem hs (List.mem_append_right _ h)]

lemma grep_cons_of_not_mem (hn : n ≠ []) (h : NEWLINE ∉ buf ++ n) :
    grep pattern buf (n :: reads) = grep pattern [] reads := by
  rw [grep, if_neg hn, (scan_of_not_mem h).1, (scan_of_not_mem h).2, List.nil_append]

/-- As long as every read before the last newline brings one, the kept bytes and the input still to
come hold all lines still to come. -/
lemma grep_eq_matching (h0 : 0 ∉ buf ++ reads.flatten) (hbuf : NEWLINE ∉ buf)
    (hne : [] ∉ reads) (hn : NewlineEach reads) :
    grep pattern buf reads = matching pattern (buf ++ reads.flatten) := by
  induction reads generalizing buf with
  | nil => rw [List.flatten_nil, List.append_nil, matching_of_not_mem hbuf, grep]
  | cons n reads ih =>
    rw [List.flatten_cons, ← List.append_assoc] at h0 ⊢
    rw [List.mem_append, not_or] at h0
    rw [List.mem_cons, not_or] at hne
    by_cases hmem : NEWLINE ∈ n
    · have hrest : 0 ∉ (scan pattern (buf ++ n)).2 ++ reads.flatten :=
        List.not_mem_append (fun hm => h0.1 ((scan_suffix _ _).subset hm)) h0.2
      rw [grep_cons_of_mem h0.1 hmem, matching_scan,
        ih hrest (not_mem_scan h0.1) hne.2 hn.2]
    · have hfree : NEWLINE ∉ buf ++ n := List.not_mem_append hbuf hmem
      have hlater : NEWLINE ∉ reads.flatten := fun hm => hmem (hn.1 hm)
      rw [grep_cons_of_not_mem (Ne.symm hne.1) hfree, ih h0.2 List.not_mem_nil hne.2 hn.2,
        List.nil_append, matching_of_not_mem hlater, matching_of_not_mem]
      exact List.not_mem_append hfree hlater

/-- Never more bytes are written than the lines have, and if as many, no read without a newline
came before the last newline: its bytes would be missing. -/
lemma grep_total (h0 : 0 ∉ buf ++ reads.flatten) (hbuf : NEWLINE ∉ buf) (hne : [] ∉ reads) :
    (grep [] buf reads).flatten.length ≤ total (buf ++ reads.flatten) ∧
      ((grep [] buf reads).flatten.length = total (buf ++ reads.flatten) → NewlineEach reads) := by
  induction reads generalizing buf with
  | nil => exact ⟨Nat.zero_le _, fun _ => trivial⟩
  | cons n reads ih =>
    rw [List.flatten_cons, ← List.append_assoc] at h0 ⊢
    rw [List.mem_append, not_or] at h0
    rw [List.mem_cons, not_or] at hne
    by_cases hmem : NEWLINE ∈ n
    · have hrest : 0 ∉ (scan [] (buf ++ n)).2 ++ reads.flatten :=
        List.not_mem_append (fun hm => h0.1 ((scan_suffix _ _).subset hm)) h0.2
      have htotal : total (buf ++ n ++ reads.flatten) = (scan [] (buf ++ n)).1.flatten.length +
          total ((scan [] (buf ++ n)).2 ++ reads.flatten) := by
        rw [total, matching_scan, List.flatten_append, List.length_append, total]
      obtain ⟨hle, heq⟩ := ih hrest (not_mem_scan h0.1) hne.2
      rw [grep_cons_of_mem h0.1 hmem, htotal, List.flatten_append, List.length_append]
      exact ⟨Nat.add_le_add_left hle _, fun h => ⟨fun _ => hmem, heq (Nat.add_left_cancel h)⟩⟩
    · have hfree : NEWLINE ∉ buf ++ n := List.not_mem_append hbuf hmem
      obtain ⟨hle, heq⟩ := @ih [] h0.2 List.not_mem_nil hne.2
      rw [List.nil_append] at hle heq
      rw [grep_cons_of_not_mem (Ne.symm hne.1) hfree]
      by_cases hlater : NEWLINE ∈ reads.flatten
      · have hpos := List.length_pos_of_ne_nil (Ne.symm hne.1)
        rw [total_append hfree hlater, List.length_append]
        exact ⟨by omega, fun h => by omega⟩
      · have hzero : total reads.flatten = 0 := by rw [total, matching_of_not_mem hlater]; rfl
        exact ⟨by omega, fun _ => ⟨fun hm => absurd hm hlater, heq (by omega)⟩⟩

lemma Admissible.not_mem (h : Admissible pattern buf reads) : [] ∉ reads := by
  induction reads generalizing buf with
  | nil => exact List.not_mem_nil
  | cons n reads ih => exact List.not_mem_cons_of_ne_of_not_mem (Ne.symm h.1) (ih h.2.2)

/-- Whatever the pattern, `grep` writes the lines that it matches, exactly if every result of
`read` before the last newline of the input has a newline in it. -/
theorem grep_writes_iff (reads : List (List UInt8)) (h0 : 0 ∉ reads.flatten)
    (hadm : ∀ pattern, Admissible pattern [] reads) :
    (∀ pattern, grep pattern [] reads = matching pattern reads.flatten) ↔ NewlineEach reads := by
  have hne := (hadm []).not_mem
  constructor
  · intro h
    refine (@grep_total [] reads h0 List.not_mem_nil hne).2 ?_
    rw [h, List.nil_append, total]
  · exact fun hn pattern => grep_eq_matching h0 List.not_mem_nil hne hn

/-- The second read ends the line whose beginning the first one brings. -/
theorem grep_writes_whole : NewlineEach [[0x61, 0x0A, 0x62], [0x0A]] ∧
    ∀ pattern, grep pattern [] [[0x61, 0x0A, 0x62], [0x0A]] =
      matching pattern [0x61, 0x0A, 0x62, 0x0A] := by
  have hnewline : NewlineEach [[0x61, 0x0A, 0x62], [0x0A]] := ⟨by decide, by decide, trivial⟩
  refine ⟨hnewline, (grep_writes_iff _ (by decide) fun pattern => ?_).mpr hnewline⟩
  refine ⟨by decide, by decide, by decide, ?_, trivial⟩
  have hle := kept_length_le pattern [0x61, 0x0A, 0x62]
  simp only [List.nil_append, List.length_cons, List.length_nil, BUFSIZE] at hle ⊢
  omega

/-- A line in two reads loses its beginning. -/
theorem grep_loses_beginning : Admissible [] [] [[0x61], [0x62, 0x0A]] ∧
    grep [] [] [[0x61], [0x62, 0x0A]] = [[0x62, 0x0A]] ∧
      matching [] [0x61, 0x62, 0x0A] = [[0x61, 0x62, 0x0A]] :=
  ⟨⟨by decide, by decide, by decide, by decide +kernel, trivial⟩, by decide +kernel,
    by decide +kernel⟩

end Xv6.Grep
