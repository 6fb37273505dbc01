import SourceDocs.Proofs.Comment.Order
import SourceDocs.Proofs.Lines

namespace SourceDocs.Comment

namespace Tags

variable {tags old mid new : Tags} {tag : Tag} {i j k bound : Nat}

theorem get_set : (tags.set i (some tag)).get k =
    if k = i ∧ tags.isFree i = true then some tag else tags.get k := by
  unfold set
  by_cases hf : tags.isFree i = true
  case neg => simp [hf]
  case pos =>
    by_cases hk : k = i
    case neg => simp [hf, hk, get, Array.getElem?_setIfInBounds_ne (Ne.symm hk)]
    case pos =>
      subst hk
      have hlt : k < tags.slots.size := by
        simp only [isFree, decide_eq_true_eq] at hf
        exact (Array.getElem?_eq_some_iff.mp hf).1
      simp [hf, get, hlt]

theorem isFree_set : (tags.set i (some tag)).isFree k = (tags.isFree k && k != i) := by
  unfold set
  by_cases hf : tags.isFree i = true
  case neg =>
    rw [if_neg hf]
    by_cases hk : k = i
    case pos => simp_all
    case neg => simp [hk]
  case pos =>
    rw [if_pos hf]
    by_cases hk : k = i
    case neg => simp [isFree, hk, Array.getElem?_setIfInBounds_ne (Ne.symm hk)]
    case pos => simp [isFree, hk, Array.getElem?_setIfInBounds]

theorem get_eq_none (h : tags.isFree i = true) : tags.get i = none := by
  simp only [isFree, decide_eq_true_eq] at h
  simp [get, h]

-- What is tagged stays tagged, and before `bound` there are no other delimiters than before.
structure Grown (bound : Nat) (old new : Tags) : Prop where
  taken : ∀ k, old.isFree k = false → new.isFree k = false
  delimiter : ∀ k < bound, new.get k = some .delimiter ↔ old.get k = some .delimiter

namespace Grown

theorem refl (bound : Nat) (tags : Tags) : Grown bound tags tags :=
  ⟨fun _ => id, fun _ _ => .rfl⟩

theorem trans (h : Grown bound old mid) (h' : Grown bound mid new) : Grown bound old new :=
  ⟨fun k hk => h'.taken k (h.taken k hk),
    fun k hk => (h'.delimiter k hk).trans (h.delimiter k hk)⟩

theorem mono {bound' : Nat} (h : Grown bound old new) (hb : bound' ≤ bound) :
    Grown bound' old new :=
  ⟨h.taken, fun k hk => h.delimiter k (Nat.lt_of_lt_of_le hk hb)⟩

theorem set (h : tag = .delimiter → bound ≤ i) : Grown bound tags (tags.set i (some tag)) where
  taken k hk := by simp [isFree_set, hk]
  delimiter k hk := by
    rw [get_set]
    split
    case isTrue hi =>
      obtain ⟨rfl, hfree⟩ := hi
      rw [get_eq_none hfree]
      cases tag
      case delimiter => exact absurd (h rfl) (Nat.not_le_of_lt hk)
      case decoration => simp
    case isFalse => rfl

theorem setRange (h : tag = .delimiter → bound ≤ i) :
    Grown bound tags (tags.setRange i j (some tag)) := by
  fun_induction Tags.setRange tags i j (some tag)
  case case1 ih => exact (set h).trans (ih fun ht => Nat.le_succ_of_le (h ht))
  case case2 => exact refl bound _

theorem foldl {α : Type} {f : Tags → α → Tags} {xs : List α}
    (h : ∀ x ∈ xs, ∀ tags, Grown bound tags (f tags x)) (tags : Tags) :
    Grown bound tags (xs.foldl f tags) := by
  induction xs generalizing tags
  case nil => exact refl bound tags
  case cons x xs hi => exact (h x (.head _) tags).trans (hi (fun y hy => h y (.tail _ hy)) _)

end Grown

theorem isFree_setRange (hi : i ≤ k) (hk : k < j) :
    (tags.setRange i j (some tag)).isFree k = false := by
  fun_induction Tags.setRange tags i j (some tag)
  case case1 tags i hlt ih =>
    rcases Nat.lt_or_eq_of_le hi with hlt | rfl
    case inl => exact ih hlt
    case inr =>
      have hset : (tags.set i (some tag)).isFree i = false := by simp [isFree_set]
      have hg : Grown 0 (tags.set i (some tag))
          ((tags.set i (some tag)).setRange (i + 1) j (some tag)) :=
        .setRange fun _ => Nat.zero_le _
      exact hg.taken i hset
  case case2 tags i hlt =>
    have : tags.slots.size ≤ k := by omega
    simp [isFree, this]

theorem setRange_self {tag : Option Tag} (h : ∀ k, i ≤ k → k < j → tags.isFree k = false) :
    tags.setRange i j tag = tags := by
  fun_induction Tags.setRange tags i j tag
  case case1 tags i hlt ih =>
    have hset : tags.set i tag = tags := by
      simp [set, h i (Nat.le_refl i) (by omega)]
    rw [hset] at ih ⊢
    exact ih fun k hk => h k (by omega)
  case case2 => rfl

end Tags

variable {buf : Buffer} {profile : Profile} {line bound : Nat} {tags old new : Tags}

theorem seek_congr {p q : Nat → Bool} {i stop : Nat} (h : ∀ k < stop, p k = q k) :
    Buffer.seek p i stop = Buffer.seek q i stop := by
  fun_induction Buffer.seek q i stop <;> rw [Buffer.seek] <;> simp_all

theorem retreat_congr {p q : Nat → Bool} {start j : Nat} (h : ∀ k < j, p k = q k) :
    Buffer.retreat p start j = Buffer.retreat q start j := by
  fun_induction Buffer.retreat q start j
  case case1 => rfl
  case case2 j hj ih =>
    rw [Buffer.retreat, h j (Nat.lt_succ_self j), if_pos hj]
    exact ih fun k hk => h k (Nat.lt_succ_of_lt hk)
  case case3 j hj => rw [Buffer.retreat, h j (Nat.lt_succ_self j), if_neg hj]

-- Only the delimiters on a line tell what else stands there.
theorem lineContent_grown (h : old.Grown (lineStop buf line) new) :
    lineContent buf new line = lineContent buf old line := by
  have hd (k : Nat) (hk : k < lineStop buf line) :
      decide (new.get k = some .delimiter) = decide (old.get k = some .delimiter) :=
    decide_eq_decide.mpr (h.delimiter k hk)
  simp only [lineContent]
  rw [seek_congr fun k hk => congrArg Bool.not (hd k hk), retreat_congr hd]

theorem grown_tagRule (buf : Buffer) (bound : Nat) (tags : Tags) (line : Nat) :
    tags.Grown bound (tagRule buf tags line) := by
  unfold tagRule
  dsimp only
  split
  case isTrue => exact .setRange fun ht => nomatch ht
  case isFalse => exact .refl bound tags

-- If the line is a rule, then all of it has its tags.
def RuleTagged (buf : Buffer) (tags : Tags) (line : Nat) : Prop :=
  isRule buf (lineContent buf tags line).start (lineContent buf tags line).stop = true →
    ∀ k, (lineContent buf tags line).start ≤ k → k < (lineContent buf tags line).stop →
      tags.isFree k = false

namespace RuleTagged

theorem tagRule_eq (h : RuleTagged buf tags line) : tagRule buf tags line = tags := by
  unfold tagRule
  dsimp only
  split
  case isTrue hrule => exact Tags.setRange_self (h hrule)
  case isFalse => rfl

theorem grown (h : RuleTagged buf old line) (hg : old.Grown (lineStop buf line) new) :
    RuleTagged buf new line := by
  rw [RuleTagged, lineContent_grown hg]
  exact fun hrule k hk hk' => hg.taken k (h hrule k hk hk')

theorem tagRule (buf : Buffer) (tags : Tags) (line : Nat) :
    RuleTagged buf (tagRule buf tags line) line := by
  rw [RuleTagged, lineContent_grown (grown_tagRule buf _ tags line)]
  intro hrule k hk hk'
  rw [Comment.tagRule, if_pos hrule]
  exact Tags.isFree_setRange hk hk'

theorem foldl {lines : List Nat} (h : line ∈ lines) (tags : Tags) :
    RuleTagged buf (lines.foldl (Comment.tagRule buf) tags) line := by
  induction lines generalizing tags
  case nil => cases h
  case cons l lines hi =>
    rw [List.foldl_cons]
    rcases List.mem_cons.mp h with rfl | h
    case inl =>
      exact (RuleTagged.tagRule buf tags line).grown (.foldl (fun l _ t => grown_tagRule buf _ t l) _)
    case inr => exact hi h _

end RuleTagged

theorem foldl_eq_self {α β : Type} {f : β → α → β} {b : β} {xs : List α}
    (h : ∀ x ∈ xs, f b x = b) : xs.foldl f b = b := by
  induction xs
  case nil => rfl
  case cons x xs hi =>
    rw [List.foldl_cons, h x (.head _), hi fun y hy => h y (.tail _ hy)]

-- Nothing is left to be tagged for this reading.
structure Reading.Settled (buf : Buffer) (r : Reading) (tags : Tags) : Prop where
  delimiters : ∀ s ∈ r.delimiters, ∀ k, s.start ≤ k → k < s.stop → tags.isFree k = false
  rules : ∀ c ∈ r.candidate, ∀ line ∈ c.lines, RuleTagged buf tags line

namespace Reading

variable {r : Reading}

-- The delimiters are tagged first, and then the rules.
theorem tag_eq (buf : Buffer) (r : Reading) (tags : Tags) :
    r.tag buf tags = (r.candidate.toList.flatMap (·.lines)).foldl (tagRule buf)
      (r.delimiters.foldl (fun t s => t.setRange s.start s.stop (some .delimiter)) tags) := by
  unfold tag
  cases r.candidate <;> simp

theorem grown_delimiters {spans : List Span} (h : ∀ s ∈ spans, bound ≤ s.start) (tags : Tags) :
    tags.Grown bound (spans.foldl (fun t s => t.setRange s.start s.stop (some .delimiter)) tags) :=
  .foldl (fun s hs _ => .setRange fun _ => h s hs) tags

theorem isFree_delimiters {spans : List Span} {s : Span} {k : Nat} (hs : s ∈ spans)
    (hk : s.start ≤ k) (hk' : k < s.stop) (tags : Tags) :
    (spans.foldl (fun t s => t.setRange s.start s.stop (some .delimiter)) tags).isFree k
      = false := by
  induction spans generalizing tags
  case nil => cases hs
  case cons s' spans hi =>
    rw [List.foldl_cons]
    rcases List.mem_cons.mp hs with rfl | hs
    case inl =>
      have hg := grown_delimiters (fun s (_ : s ∈ spans) => Nat.zero_le s.start)
        (tags.setRange s.start s.stop (some .delimiter))
      exact hg.taken k (Tags.isFree_setRange hk hk')
    case inr => exact hi hs _

theorem grown_tag (h : ∀ s ∈ r.delimiters, bound ≤ s.start) (tags : Tags) :
    tags.Grown bound (r.tag buf tags) := by
  rw [tag_eq]
  exact (grown_delimiters h tags).trans (.foldl (fun l _ t => grown_tagRule buf _ t l) _)

theorem settled_tag (buf : Buffer) (r : Reading) (tags : Tags) :
    r.Settled buf (r.tag buf tags) := by
  rw [tag_eq]
  constructor
  case delimiters =>
    intro s hs k hk hk'
    have hg := Tags.Grown.foldl fun l (_ : l ∈ r.candidate.toList.flatMap (·.lines)) t =>
      grown_tagRule buf 0 t l
    exact (hg _).taken k (isFree_delimiters hs hk hk' tags)
  case rules =>
    intro c hc line hline
    exact .foldl (List.mem_flatMap.mpr ⟨c, Option.mem_toList.mpr hc, hline⟩) _

namespace Settled

theorem tag_eq (h : r.Settled buf tags) : r.tag buf tags = tags := by
  have hd : r.delimiters.foldl (fun t s => t.setRange s.start s.stop (some .delimiter)) tags
      = tags :=
    foldl_eq_self fun s hs => Tags.setRange_self (h.delimiters s hs)
  rw [Reading.tag_eq, hd]
  refine foldl_eq_self fun line hline => ?_
  obtain ⟨c, hc, hline⟩ := List.mem_flatMap.mp hline
  exact (h.rules c (Option.mem_toList.mp hc) line hline).tagRule_eq

theorem grown (h : r.Settled buf old) (hg : old.Grown bound new)
    (hb : ∀ c ∈ r.candidate, ∀ line ∈ c.lines, lineStop buf line ≤ bound) :
    r.Settled buf new where
  delimiters s hs k hk hk' := hg.taken k (h.delimiters s hs k hk hk')
  rules c hc line hline := (h.rules c hc line hline).grown (hg.mono (hb c hc line hline))

end Settled
end Reading

-- The line behind the last one starts at the end of the text.
theorem lineStart_mono {l m : Nat} (hl : 1 ≤ l) (hlm : l ≤ m) (hm : m ≤ buf.lineCount + 1) :
    buf.lineStart l ≤ buf.lineStart m := by
  rcases Nat.lt_or_eq_of_le hlm with hlt | rfl
  case inr => exact Nat.le_refl _
  case inl =>
    rcases Nat.lt_or_eq_of_le hm with hlast | rfl
    case inl => exact Nat.le_of_lt (Buffer.lineStart_lt hl hlt (Nat.le_of_lt_succ hlast))
    case inr =>
      have hle : l ≤ buf.lineCount := Nat.le_of_lt_succ hlt
      calc buf.lineStart l
        _ ≤ buf.lineEnd l := Buffer.lineStart_le_lineEnd hl hle
        _ ≤ buf.size := Buffer.lineEnd_le_size hl hle
        _ = buf.lineStart (buf.lineCount + 1) := buf.lineEnd_lineCount.symm

theorem lineStart_le_symbolRun {symbol : String} {m : Nat} (hl : 1 ≤ line) (hm : line ≤ m) :
    ∀ s ∈ symbolRun buf symbol m, buf.lineStart line ≤ s.start := by
  fun_induction symbolRun buf symbol m
  case case1 m hle i hi ih =>
    intro s hs
    rcases List.mem_cons.mp hs with rfl | hs
    case inl => exact (lineStart_mono hl hm (Nat.le_succ_of_le hle)).trans (buf.le_afterBlanks _ _)
    case inr => exact ih (Nat.le_succ_of_le hm) s hs
  all_goals simp

theorem lineStart_le_findCloser? {closer : String} {i : Nat} {p : Nat × Nat} (hl : 1 ≤ line)
    (hl' : line ≤ buf.lineCount) (hi : buf.lineStart line ≤ i)
    (h : findCloser? buf closer line i = some p) : buf.lineStart line ≤ p.2 := by
  fun_induction findCloser? buf closer line i
  case case1 line i stop j hj =>
    cases h
    exact hi.trans (Buffer.le_seek _ i stop)
  case case2 line i stop j hj hlt ih =>
    exact (lineStart_mono hl (Nat.le_succ line) (Nat.le_succ_of_le hlt)).trans
      (ih (by omega) hlt (buf.le_afterBlanks _ _) h)
  case case3 => cases h

theorem lineStart_le_afterSymbol? {symbol : String} {alone : Bool} {i : Nat}
    (h : afterSymbol? buf line symbol alone = some i) : buf.lineStart line ≤ i :=
  (buf.le_afterBlanks _ _).trans
    (Nat.le_of_lt (buf.lt_skip? (Option.filter_eq_some_iff.mp h).1))

theorem lineStart_le_readBlock? {symbols : BlockSymbols} {alone : Bool} {r : Reading}
    (hl : 1 ≤ line) (hl' : line ≤ buf.lineCount) (h : readBlock? buf line symbols alone = some r) :
    ∀ s ∈ r.delimiters, buf.lineStart line ≤ s.start := by
  obtain ⟨i, hi, h⟩ := Option.bind_eq_some_iff.mp h
  split at h
  case h_1 =>
    cases h
    simp
  case h_2 last j hcloser =>
    have := lineStart_le_findCloser? hl hl' (lineStart_le_afterSymbol? hi) hcloser
    dsimp only at h
    split at h <;> cases h
    case isTrue => simpa using ⟨buf.le_afterBlanks _ _, this⟩
    case isFalse => simp

theorem lineStart_le_readLines? {first following : String} {alone : Bool}
    {found : Candidate × List Span} (hl : 1 ≤ line)
    (h : readLines? buf line first following alone = some found) :
    ∀ s ∈ found.2, buf.lineStart line ≤ s.start := by
  obtain ⟨i, -, h⟩ := Option.bind_eq_some_iff.mp h
  cases h
  intro s hs
  rcases List.mem_cons.mp hs with rfl | hs
  case inl => exact buf.le_afterBlanks _ _
  case inr => exact lineStart_le_symbolRun hl (Nat.le_succ line) s hs

theorem lineStart_le_readJavadocLines? {found : Candidate × List Span} (hl : 1 ≤ line)
    (h : readJavadocLines? buf profile line = some found) :
    ∀ s ∈ found.2, buf.lineStart line ≤ s.start := by
  obtain ⟨p, -, hread⟩ := List.exists_of_findSome?_eq_some h
  exact lineStart_le_readLines? hl hread

theorem lineStart_le_chooseReading {xml : Candidate × List Span}
    {javadoc : Option (Candidate × List Span)} (hx : ∀ s ∈ xml.2, buf.lineStart line ≤ s.start)
    (hj : ∀ found ∈ javadoc, ∀ s ∈ found.2, buf.lineStart line ≤ s.start) :
    ∀ s ∈ (chooseReading xml javadoc).delimiters, buf.lineStart line ≤ s.start := by
  cases javadoc
  case none => exact hx
  case some found =>
    intro s hs
    rcases List.mem_append.mp hs with hs | hs
    case inl => exact hx s hs
    case inr => exact hj found rfl s hs

-- One case for each style, as they are tried.
theorem lineStart_le_read? {r : Reading} (hl : 1 ≤ line) (hl' : line ≤ buf.lineCount)
    (h : read? buf profile line = some r) : ∀ s ∈ r.delimiters, buf.lineStart line ≤ s.start := by
  simp only [read?, Option.or_eq_some_iff, Option.map_eq_some_iff] at h
  rcases h with h | ⟨-, h | ⟨-, h | ⟨-, h | ⟨-, h⟩⟩⟩⟩
  case inl =>
    obtain ⟨s, -, h⟩ := List.exists_of_findSome?_eq_some h
    obtain ⟨r, hread, rfl⟩ := Option.map_eq_some_iff.mp h
    exact fun s hs => lineStart_le_readBlock? hl hl' hread s hs
  case inr.inl =>
    obtain ⟨s, -, h⟩ := List.exists_of_findSome?_eq_some h
    obtain ⟨r, hread, rfl⟩ := Option.map_eq_some_iff.mp h
    exact fun s hs => lineStart_le_readBlock? hl hl' hread s hs
  case inr.inr.inl =>
    obtain ⟨xml, hread, rfl⟩ := h
    obtain ⟨s, -, hread⟩ := List.exists_of_findSome?_eq_some hread
    exact lineStart_le_chooseReading (lineStart_le_readLines? hl hread) fun _ hj =>
      lineStart_le_readJavadocLines? hl hj
  case inr.inr.inr.inl =>
    obtain ⟨javadoc, hread, rfl⟩ := h
    exact lineStart_le_readJavadocLines? hl hread
  case inr.inr.inr.inr =>
    obtain ⟨plain, hread, rfl⟩ := h
    obtain ⟨s, -, hread⟩ := List.exists_of_findSome?_eq_some hread
    exact lineStart_le_readLines? hl hread

-- A candidate lies before the line that is read next.
theorem Reading.Sound.lineStop_le {r : Reading} {c : Candidate} {l : Nat} (h : r.Sound buf line)
    (hc : c ∈ r.candidate) (hline : l ∈ c.lines) : lineStop buf l ≤ buf.lineStart r.next := by
  have hbounds : line ≤ l ∧ l < r.next := by
    have := h.start_eq c hc
    have := h.end_eq c hc
    simp only [Candidate.lines, Candidate.lineCount, List.mem_range'_1] at hline
    omega
  exact (lineStop_le_lineEnd buf l).trans (lineStart_mono (by omega) hbounds.2 h.next_le)

-- The tags after some readings.
def tagged (buf : Buffer) (tags : Tags) (rs : List (Option Reading)) : Tags :=
  rs.foldl (fun t r => r.elim t (·.tag buf t)) tags

-- A scan tags the readings up to the poll that stops it.
theorem tags_scanReadings (buf : Buffer) (signal : Signal) (tags : Tags) (n : Nat)
    (rs : List (Option Reading)) :
    ∃ k, (scanReadings buf signal tags n rs).tags = tagged buf tags (rs.take k) := by
  induction rs generalizing tags n
  case nil => exact ⟨0, rfl⟩
  case cons r rs hi =>
    by_cases hs : signal n = true
    case pos => exact ⟨0, by cases r <;> simp [scanReadings, hs, tagged]⟩
    case neg =>
      obtain ⟨k, hk⟩ := hi (r.elim tags (·.tag buf tags)) (n + 1)
      refine ⟨k + 1, ?_⟩
      cases r <;> simpa [scanReadings, hs, tagged] using hk

theorem tags_scanReadings_never (buf : Buffer) (tags : Tags) (n : Nat) (rs : List (Option Reading)) :
    (scanReadings buf .never tags n rs).tags = tagged buf tags rs := by
  induction rs generalizing tags n
  case nil => rfl
  case cons r rs hi => cases r <;> simp [scanReadings, Signal.never, hi, tagged]

-- What is tagged from a line on leaves the lines before it as they are.
theorem grown_tagged (profile : Profile) (hl : 1 ≤ line) (tags : Tags) (k : Nat) :
    tags.Grown (buf.lineStart line) (tagged buf tags ((readings buf profile line).take k)) := by
  fun_induction readings buf profile line generalizing tags k
  case case1 line hle hr ih =>
    cases k
    case zero => exact .refl _ tags
    case succ k =>
      exact (ih (Nat.le_succ_of_le hl) tags k).mono
        (lineStart_mono hl (Nat.le_succ line) (Nat.succ_le_succ hle))
  case case2 line hle r hr ih =>
    have hsound := sound_read? hle hr
    have hnext := hsound.lt_next
    cases k
    case zero => exact .refl _ tags
    case succ k =>
      have hmono : buf.lineStart line ≤ buf.lineStart (max r.next (line + 1)) :=
        lineStart_mono hl (by omega) (by have := hsound.next_le; omega)
      exact (Reading.grown_tag (lineStart_le_read? hl hle hr) tags).trans
        ((ih (by omega) (r.tag buf tags) k).mono hmono)
  case case3 => simpa [tagged] using Tags.Grown.refl _ tags

-- Tagging all readings makes up for what is missing, whichever of them have been tagged already.
theorem tagged_tagged_take (profile : Profile) (hl : 1 ≤ line) (tags : Tags) (k : Nat) :
    tagged buf (tagged buf tags ((readings buf profile line).take k)) (readings buf profile line)
      = tagged buf tags (readings buf profile line) := by
  fun_induction readings buf profile line generalizing tags k
  case case1 line hle hr ih =>
    cases k
    case zero => rfl
    case succ k => exact ih (Nat.le_succ_of_le hl) tags k
  case case2 line hle r hr ih =>
    have hsound := sound_read? hle hr
    have hnext : max r.next (line + 1) = r.next := by
      have := hsound.lt_next
      omega
    rw [hnext] at ih ⊢
    have hl' : 1 ≤ r.next := by
      have := hsound.lt_next
      omega
    cases k
    case zero => rfl
    case succ k =>
      -- The first reading is settled, and stays so while the others are tagged.
      have hsettled : r.Settled buf
          (tagged buf (r.tag buf tags) ((readings buf profile r.next).take k)) := by
        refine (Reading.settled_tag buf r tags).grown (grown_tagged profile hl' _ k) ?_
        exact fun c hc l hline => hsound.lineStop_le hc hline
      calc tagged buf (tagged buf (r.tag buf tags) ((readings buf profile r.next).take k))
            (some r :: readings buf profile r.next)
        _ = tagged buf (tagged buf (r.tag buf tags) ((readings buf profile r.next).take k))
              (readings buf profile r.next) :=
          congrArg (tagged buf · _) hsettled.tag_eq
        _ = tagged buf (r.tag buf tags) (readings buf profile r.next) := ih hl' _ k
  case case3 => simp [tagged]

-- A later scan gives the same candidates and the same tags. Tags are never replaced, so only the
-- rules of a comment could differ: they are told by the delimiters on its lines, and the later scan
-- already sees those of the comments behind it. They lie on other lines.
theorem scan_over_earlier (buf : Buffer) (profile : Profile) (tags : Tags) (signal : Signal)
    (n m k : Nat) :
    let first := scan buf profile tags signal n
    let full := scan buf profile tags .never m
    let again := scan buf profile first.tags .never k
    (∃ cs, full.outcome = .completed cs ∧ again.outcome = .completed cs) ∧
      again.tags = full.tags ∧ (scan buf profile full.tags .never k).tags = full.tags := by
  have hover (signal : Signal) (n : Nat) :
      (scan buf profile (scan buf profile tags signal n).tags .never k).tags =
        (scan buf profile tags .never m).tags := by
    obtain ⟨j, hj⟩ := tags_scanReadings buf signal tags n (readings buf profile 1)
    simp only [scan, hj, tags_scanReadings_never]
    exact tagged_tagged_take profile (Nat.le_refl 1) tags j
  exact ⟨⟨_, outcome_scanReadings_never, outcome_scanReadings_never⟩, hover signal n, hover .never m⟩

end SourceDocs.Comment
