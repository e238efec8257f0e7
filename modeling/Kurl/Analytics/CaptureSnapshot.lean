import Kurl.Analytics.ParseDailyCounts
import Kurl.Analytics.Persistence
import Kurl.Analytics.RecordClickErrors

/-!
# Kurl — capturing texts (`analytics/src/redis_persistence.rs`)

`Persistence::capture_snapshot` on the keys and texts that Redis holds (`Keyspace`): it finds the
links by the pattern of their keys, takes the codes off the keys, parses the fields and fetches the
timestamps. `Replies` is what the commands answer during one capture: `SCAN` yields a key at least
once, and hash maps are iterated in any order.

* `glob_linkStatsKey_iff`, `stripPrefix_linkStatsKey_iff` — the keys that match the pattern are the
  hashes of the links, whatever their codes;
* `captureLinks_ok_iff`, `lastClickedAtBatch_ok_iff`, `get_lastClickedAtBatch` — one lemma for each
  part of the capture;
* `captureSnapshot_ok_iff` — when a capture succeeds, and with which snapshot;
* `captureSnapshot_isOk_iff` — on which contents it succeeds.
-/

namespace Kurl

open Lib

/-! ## The keys of the links -/

/-- Redis' patterns: `*` stands for any text and `?` for any character. No pattern of the repository
has a class or an escape. -/
def glob : List Char → List Char → Bool
  | [], text => text.isEmpty
  | c :: pattern, text =>
    if c = '*' then text.tails.any fun rest => glob pattern rest
    else match text with
      | [] => false
      | c' :: rest => (c = '?' || c = c') && glob pattern rest

/-- A literal and `*`: the texts that begin with the literal. -/
theorem glob_append_star {literal : List Char} (h : ∀ c ∈ literal, c ≠ '*' ∧ c ≠ '?')
    {text : List Char} : glob (literal ++ ['*']) text = true ↔ ∃ rest, text = literal ++ rest := by
  induction literal generalizing text with
  | nil =>
    -- the star takes the whole text
    have hstar : glob ['*'] text = true := by
      unfold glob
      rw [if_pos rfl, List.any_eq_true]
      exact ⟨[], (List.mem_tails _ _).mpr (List.nil_suffix), rfl⟩
    exact ⟨fun _ => ⟨text, rfl⟩, fun _ => hstar⟩
  | cons c literal ih =>
    obtain ⟨hstar, hany⟩ := h c List.mem_cons_self
    have ih' := @ih (fun c hc => h c (List.mem_cons_of_mem _ hc))
    rw [List.cons_append]
    unfold glob
    rw [if_neg hstar]
    cases text with
    | nil => simp
    | cons c' text =>
      simp only [hany, decide_false, Bool.false_or, Bool.and_eq_true, decide_eq_true_eq, ih',
        List.cons_append, List.cons.injEq]
      exact ⟨fun ⟨heq, rest, hrest⟩ => ⟨rest, heq.symm, hrest⟩,
        fun ⟨rest, heq, hrest⟩ => ⟨heq.symm, rest, hrest⟩⟩

namespace RedisKeys

/-- `str::strip_prefix` -/
def stripPrefix (start key : String) : Option String :=
  (start.toList.isPrefixOf? key.toList).map String.ofList

theorem toList_linkStatsKey (code : String) :
    (linkStatsKey code).toList = (linkStatsKey "").toList ++ code.toList := by
  simp [linkStatsKey]

/-- Stripping a key gives the code it was made of. -/
theorem stripPrefix_linkStatsKey_iff {key code : String} :
    stripPrefix (linkStatsKey "") key = some code ↔ key = linkStatsKey code := by
  unfold stripPrefix
  rw [Option.map_eq_some_iff]
  constructor
  · rintro ⟨rest, hrest, rfl⟩
    refine String.toList_inj.mp ?_
    rw [toList_linkStatsKey, String.toList_ofList]
    exact (List.isPrefixOf?_eq_some_iff_append_eq.mp hrest).symm
  · rintro rfl
    refine ⟨code.toList, ?_, String.ofList_toList⟩
    rw [toList_linkStatsKey code, List.isPrefixOf?_eq_some_iff_append_eq]

/-- The pattern finds the hashes of the links and nothing else. -/
theorem glob_linkStatsKey_iff {key : String} :
    glob (linkStatsKey "*").toList key.toList = true ↔ ∃ code, key = linkStatsKey code := by
  have hliteral : ∀ c ∈ (linkStatsKey "").toList, c ≠ '*' ∧ c ≠ '?' := by
    simp [linkStatsKey]
  rw [toList_linkStatsKey, show "*".toList = ['*'] from rfl, glob_append_star hliteral]
  constructor
  · rintro ⟨rest, hrest⟩
    refine ⟨String.ofList rest, String.toList_inj.mp ?_⟩
    rw [toList_linkStatsKey, String.toList_ofList, hrest]
  · rintro ⟨code, rfl⟩
    exact ⟨code.toList, toList_linkStatsKey code⟩

end RedisKeys

/-! ## The answers of Redis -/

/-- What the commands of one capture answer, and the order of the one set it iterates. An answer to
`HGETALL` is `none` for `WRONGTYPE` and for one that is not UTF-8. -/
structure Replies where
  /-- The keys that `SCAN` yields, each with the answer to `HGETALL`. -/
  scanned : List (String × Option (HashMap String String))
  globalFields : Option (HashMap String String)
  /-- `HashSet::into_iter` -/
  order : List String → List String

namespace Keyspace

/-- The answers that are possible while no key changes. -/
structure Answers (k : Keyspace) (replies : Replies) : Prop where
  matching : ∀ e ∈ replies.scanned, e.1 ∈ k.keys.keys ∧
    glob (RedisKeys.linkStatsKey "*").toList e.1.toList = true
  complete : ∀ key ∈ k.keys.keys, glob (RedisKeys.linkStatsKey "*").toList key.toList = true →
    key ∈ replies.scanned.map Prod.fst
  hgetall : ∀ e ∈ replies.scanned, e.2.map HashMap.toTable = k.hgetall e.1
  hgetallGlobal : replies.globalFields.map HashMap.toTable = k.hgetall RedisKeys.globalStatsKey
  order : ∀ codes, (replies.order codes).Perm codes

/-- One value of `MGET`: nil for a missing key and for one that holds no string. -/
def text (k : Keyspace) (key : String) : Option String :=
  match k.keys.get key with
  | some (.string s) => some s
  | _ => none

/-- The key holds a string that is not UTF-8. -/
def isBinary (k : Keyspace) (key : String) : Bool :=
  match k.keys.get key with
  | some (.binaryString _) => true
  | _ => false

/-- `MGET`, decoded as a whole. -/
def mget (k : Keyspace) (keys : List String) : Option (List (Option String)) :=
  if keys.any k.isBinary then none else some (keys.map k.text)

end Keyspace

inductive CaptureError where
  /-- `WRONGTYPE`, or an answer that is not UTF-8. -/
  | wrongType
  /-- "invalid Redis last_clicked_at timestamp for {code}: {value}" -/
  | invalidTimestamp (code value : String)
  /-- "out-of-range timestamp for {code}: {ts}" -/
  | outOfRange (code : String) (ts : Int)
  deriving DecidableEq

/-! ## The capture -/

/-- The last `map` of `last_clicked_at_batch`. -/
def parseTimestamp (e : String × String) : Except CaptureError (String × DateTime) :=
  match parseI64 e.2 with
  | none => .error (.invalidTimestamp e.1 e.2)
  | some ts =>
    match DateTime.timestampMillisOpt ts with
    | none => .error (.outOfRange e.1 ts)
    | some at' => .ok (e.1, at')

/-- One turn of the loop over the keys. -/
def captureLink (linkDaily : HashMap (String × NaiveDate) Int)
    (e : String × Option (HashMap String String)) :
    Except CaptureError (HashMap (String × NaiveDate) Int) :=
  match RedisKeys.stripPrefix (RedisKeys.linkStatsKey "") e.1 with
  | none => .ok linkDaily
  | some shortCode =>
    match e.2 with
    | none => .error .wrongType
    | some fields => .ok ((Snapshot.parseDailyCounts fields).1.entries.foldl
        (fun daily d => daily.insert (shortCode, d.1) d.2) linkDaily)

/-- The codes of the captured links. -/
def linkCodes (linkDaily : HashMap (String × NaiveDate) Int) : List String :=
  (linkDaily.keys.map Prod.fst).dedup

namespace Keyspace

/-- `RedisStats::last_clicked_at_batch` -/
def lastClickedAtBatch (k : Keyspace) (shortCodes : List String) :
    Except CaptureError (HashMap String DateTime) :=
  if shortCodes.isEmpty then .ok HashMap.empty
  else
    match k.mget (shortCodes.map RedisKeys.linkLastClickedAtKey) with
    | none => .error .wrongType
    | some values =>
      (((shortCodes.zip values).filterMap fun (code, value) =>
        value.map fun value => (code, value)).mapM parseTimestamp).map HashMap.ofList

/-- `Persistence::capture_snapshot` -/
def captureSnapshot (now : DateTime) (k : Keyspace) (replies : Replies) :
    Except CaptureError RedisSnapshot :=
  match replies.scanned.foldlM captureLink HashMap.empty with
  | .error e => .error e
  | .ok linkDaily =>
    match replies.globalFields with
    | none => .error .wrongType
    | some fields =>
      let globalDaily := (Snapshot.parseDailyCounts fields).1
      match k.lastClickedAtBatch (replies.order (linkCodes linkDaily)) with
      | .error e => .error e
      | .ok lastClickedAt => .ok
          { globalDaily, linkDaily, lastClickedAt
            staleGlobal := staleGlobalFields globalDaily (staleCutoff now)
            staleLinks := staleLinkFields linkDaily (staleCutoff now) }

end Keyspace

/-! ## The timestamps -/

/-- A text as a last click. -/
def timestamp (value : String) : Option DateTime :=
  (parseI64 value).bind DateTime.timestampMillisOpt

theorem parseTimestamp_eq_ok_iff {e : String × String} {b : String × DateTime} :
    parseTimestamp e = .ok b ↔ timestamp e.2 = some b.2 ∧ b.1 = e.1 := by
  unfold parseTimestamp timestamp
  cases parseI64 e.2 with
  | none => simp
  | some ts =>
    rw [Option.bind_some]
    cases hat : DateTime.timestampMillisOpt ts with
    | none => simp [hat]
    | some at' =>
      simp only [hat, Except.ok.injEq, Option.some.injEq, Prod.ext_iff]
      exact ⟨fun h => ⟨h.2, h.1.symm⟩, fun h => ⟨h.2.symm, h.1⟩⟩

section Timestamps

variable {k : Keyspace} {codes : List String}

/-- The texts that are there, with their codes. -/
def lastClickTexts (k : Keyspace) (codes : List String) : List (String × String) :=
  codes.filterMap fun code => (k.text (RedisKeys.linkLastClickedAtKey code)).map fun value =>
    (code, value)

theorem mem_lastClickTexts {e : String × String} : e ∈ lastClickTexts k codes ↔
    e.1 ∈ codes ∧ k.text (RedisKeys.linkLastClickedAtKey e.1) = some e.2 := by
  obtain ⟨code, value⟩ := e
  unfold lastClickTexts
  simp only [List.mem_filterMap, Option.map_eq_some_iff, Prod.mk.injEq]
  constructor
  · rintro ⟨_, hcode, _, htext, rfl, rfl⟩
    exact ⟨hcode, htext⟩
  · rintro ⟨hcode, htext⟩
    exact ⟨code, hcode, value, htext, rfl, rfl⟩

/-- `MGET` fetches them in the order of the codes. -/
theorem filterMap_zip_text (k : Keyspace) (codes : List String) :
    ((codes.zip ((codes.map RedisKeys.linkLastClickedAtKey).map k.text)).filterMap
      fun (code, value) => value.map fun value => (code, value)) = lastClickTexts k codes := by
  induction codes with
  | nil => rfl
  | cons code codes ih =>
    show List.filterMap _ ((code, k.text (RedisKeys.linkLastClickedAtKey code)) ::
      codes.zip ((codes.map RedisKeys.linkLastClickedAtKey).map k.text)) = _
    rw [lastClickTexts, List.filterMap_cons, List.filterMap_cons, ih]
    rfl

/-- The texts are all UTF-8. -/
def Decodes (k : Keyspace) (codes : List String) : Prop :=
  ∀ code ∈ codes, k.isBinary (RedisKeys.linkLastClickedAtKey code) = false

theorem any_isBinary_eq_false_iff :
    (codes.map RedisKeys.linkLastClickedAtKey).any k.isBinary = false ↔ Decodes k codes := by
  simp [Decodes, List.any_eq_false]

theorem lastClickedAtBatch_eq (h : Decodes k codes) : k.lastClickedAtBatch codes =
    ((lastClickTexts k codes).mapM parseTimestamp).map HashMap.ofList := by
  have hmget : k.mget (codes.map RedisKeys.linkLastClickedAtKey) =
      some ((codes.map RedisKeys.linkLastClickedAtKey).map k.text) := by
    unfold Keyspace.mget
    rw [any_isBinary_eq_false_iff.mpr h]
    rfl
  rw [← filterMap_zip_text]
  unfold Keyspace.lastClickedAtBatch
  rw [hmget]
  cases codes <;> rfl

theorem decodes_of_ok {m : HashMap String DateTime} (h : k.lastClickedAtBatch codes = .ok m) :
    Decodes k codes := by
  rw [← any_isBinary_eq_false_iff, ← Bool.not_eq_true]
  intro hbinary
  have hmget : k.mget (codes.map RedisKeys.linkLastClickedAtKey) = none := if_pos hbinary
  unfold Keyspace.lastClickedAtBatch at h
  rw [hmget] at h
  cases codes with
  | nil => cases hbinary
  | cons code codes => cases h

/-- **One malformed text fails the batch.** -/
theorem lastClickedAtBatch_ok_iff : (∃ m, k.lastClickedAtBatch codes = .ok m) ↔
    Decodes k codes ∧ ∀ code ∈ codes, ∀ value ∈ k.text (RedisKeys.linkLastClickedAtKey code),
      (timestamp value).isSome = true := by
  have hparse : (∃ bs, (lastClickTexts k codes).mapM parseTimestamp = .ok bs) ↔
      ∀ e ∈ lastClickTexts k codes, (timestamp e.2).isSome = true := by
    rw [mapM_isOk_iff]
    refine forall₂_congr fun e _ => ?_
    simp only [parseTimestamp_eq_ok_iff, Option.isSome_iff_exists]
    exact ⟨fun ⟨b, hb, _⟩ => ⟨b.2, hb⟩, fun ⟨t, ht⟩ => ⟨(e.1, t), ht, rfl⟩⟩
  constructor
  · rintro ⟨m, hm⟩
    have hdecodes := decodes_of_ok hm
    refine ⟨hdecodes, fun code hcode value hvalue => ?_⟩
    rw [lastClickedAtBatch_eq hdecodes] at hm
    obtain ⟨bs, hbs, -⟩ := exceptMap_eq_ok hm
    exact hparse.mp ⟨bs, hbs⟩ (code, value) (mem_lastClickTexts.mpr ⟨hcode, hvalue⟩)
  · rintro ⟨hdecodes, hall⟩
    obtain ⟨bs, hbs⟩ := hparse.mpr fun e he =>
      hall e.1 (mem_lastClickTexts.mp he).1 e.2 (mem_lastClickTexts.mp he).2
    exact ⟨HashMap.ofList bs, by rw [lastClickedAtBatch_eq hdecodes, hbs]; rfl⟩

/-- The timestamps of a batch that succeeded are those of its texts. -/
theorem get_lastClickedAtBatch {m : HashMap String DateTime}
    (h : k.lastClickedAtBatch codes = .ok m) (code : String) :
    m.get code = if code ∈ codes then
      (k.text (RedisKeys.linkLastClickedAtKey code)).bind timestamp else none := by
  rw [lastClickedAtBatch_eq (decodes_of_ok h)] at h
  obtain ⟨bs, hbs, rfl⟩ := exceptMap_eq_ok h
  have hmem : ∀ b, b ∈ bs ↔ b.1 ∈ codes ∧
      (k.text (RedisKeys.linkLastClickedAtKey b.1)).bind timestamp = some b.2 := by
    intro b
    simp only [mem_of_mapM_eq_ok hbs, mem_lastClickTexts, parseTimestamp_eq_ok_iff,
      Option.bind_eq_some_iff]
    constructor
    · rintro ⟨e, ⟨hcode, htext⟩, ht, heq⟩
      rw [heq]
      exact ⟨hcode, e.2, htext, ht⟩
    · rintro ⟨hcode, value, htext, ht⟩
      exact ⟨(b.1, value), ⟨hcode, htext⟩, ht, rfl⟩
  -- a code has one text
  have hone : ∀ b ∈ bs, ∀ b' ∈ bs, b.1 = b'.1 → b = b' := fun b hb b' hb' heq => by
    have ht := ((hmem b).mp hb).2
    rw [heq, ((hmem b').mp hb').2] at ht
    exact Prod.ext heq (Option.some.inj ht).symm
  ext t
  rw [HashMap.get_ofList_eq_some_iff hone, hmem]
  split
  · next hcode => exact ⟨fun h => h.2, fun h => ⟨hcode, h⟩⟩
  · next hcode => exact ⟨fun h => absurd h.1 hcode, fun h => (by cases h)⟩

end Timestamps

/-! ## The counts -/

/-- The entries that one key brings. -/
def linkEntries (e : String × Option (HashMap String String)) :
    List ((String × NaiveDate) × Int) :=
  match RedisKeys.stripPrefix (RedisKeys.linkStatsKey "") e.1, e.2 with
  | some code, some fields =>
    (Snapshot.parseDailyCounts fields).1.entries.map fun d => ((code, d.1), d.2)
  | _, _ => []

/-- No hash of a link has another type. -/
def Replies.Hashes (replies : Replies) : Prop := ∀ e ∈ replies.scanned,
  (RedisKeys.stripPrefix (RedisKeys.linkStatsKey "") e.1).isSome = true → e.2.isSome = true

/-- The counts of the links that a capture reads. -/
def Replies.linkDaily (replies : Replies) : HashMap (String × NaiveDate) Int :=
  HashMap.ofList (replies.scanned.flatMap linkEntries)

theorem captureLink_eq_ok_iff {m m' : HashMap (String × NaiveDate) Int}
    {e : String × Option (HashMap String String)} : captureLink m e = .ok m' ↔
      ((RedisKeys.stripPrefix (RedisKeys.linkStatsKey "") e.1).isSome = true →
        e.2.isSome = true) ∧ m' = (linkEntries e).foldl (fun m d => m.insert d.1 d.2) m := by
  unfold captureLink linkEntries
  cases RedisKeys.stripPrefix (RedisKeys.linkStatsKey "") e.1 with
  | none =>
    exact ⟨fun h => ⟨fun h => (by cases h), (Except.ok.inj h).symm⟩, fun h => congrArg _ h.2.symm⟩
  | some code =>
    cases e.2 with
    | none => exact ⟨fun h => (by cases h), fun h => absurd (h.1 rfl) (by decide)⟩
    | some fields =>
      dsimp only
      rw [List.foldl_map]
      exact ⟨fun h => ⟨fun _ => rfl, (Except.ok.inj h).symm⟩, fun h => congrArg _ h.2.symm⟩

/-- **The loop over the keys** fails on a key of another type, and otherwise inserts all entries. -/
theorem captureLinks_ok_iff {replies : Replies} {m : HashMap (String × NaiveDate) Int} :
    replies.scanned.foldlM captureLink HashMap.empty = .ok m ↔
      replies.Hashes ∧ m = replies.linkDaily := by
  unfold Replies.Hashes Replies.linkDaily HashMap.ofList
  generalize replies.scanned = scanned
  generalize HashMap.empty = start
  -- over the keys, from any map: a step adds the entries of one key to it
  induction scanned generalizing start with
  | nil =>
    refine ⟨fun h => ⟨fun e he => (by cases he), ?_⟩, fun h => congrArg _ h.2.symm⟩
    exact (Except.ok.inj h).symm
  | cons e scanned ih =>
    rw [List.foldlM_cons, List.flatMap_cons, List.foldl_append, List.forall_mem_cons, and_assoc]
    constructor
    · intro h
      obtain ⟨start', hstep, hrest⟩ := exceptBind_eq_ok h
      obtain ⟨htype, rfl⟩ := captureLink_eq_ok_iff.mp hstep
      exact ⟨htype, (ih _).mp hrest⟩
    · rintro ⟨htype, hrest⟩
      rw [captureLink_eq_ok_iff.mpr ⟨htype, rfl⟩]
      exact (ih _).mpr hrest

theorem mem_linkEntries {scanned : List (String × Option (HashMap String String))}
    {code : String} {day : NaiveDate} {clicks : Int} :
    ((code, day), clicks) ∈ scanned.flatMap linkEntries ↔
      ∃ fields, (RedisKeys.linkStatsKey code, some fields) ∈ scanned ∧
        (Snapshot.parseDailyCounts fields).1.get day = some clicks := by
  simp only [List.mem_flatMap, HashMap.get_eq_some_iff]
  constructor
  · rintro ⟨⟨key, answer⟩, he, hmem⟩
    unfold linkEntries at hmem
    split at hmem
    · next code' fields hcode hanswer =>
      obtain ⟨d, hd, heq⟩ := List.mem_map.mp hmem
      obtain ⟨⟨rfl, rfl⟩, rfl⟩ : (code' = code ∧ d.1 = day) ∧ d.2 = clicks := by
        simpa [Prod.ext_iff] using heq
      obtain rfl := RedisKeys.stripPrefix_linkStatsKey_iff.mp hcode
      obtain rfl : answer = some fields := hanswer
      exact ⟨fields, he, hd⟩
    · cases hmem
  · rintro ⟨fields, he, hd⟩
    refine ⟨_, he, ?_⟩
    unfold linkEntries
    rw [RedisKeys.stripPrefix_linkStatsKey_iff.mpr rfl]
    exact List.mem_map_of_mem (f := fun d : NaiveDate × Int => ((code, d.1), d.2)) hd

/-- **The counts of the links**, where the scanned hashes of a code all have the same counts and
no code with a count was missed. -/
theorem Replies.get_linkDaily {replies : Replies} (counts : String → NaiveDate → Option Int)
    (hcounts : ∀ code fields, (RedisKeys.linkStatsKey code, some fields) ∈ replies.scanned →
      ∀ day, (Snapshot.parseDailyCounts fields).1.get day = counts code day)
    (hscanned : ∀ code day clicks, counts code day = some clicks →
      ∃ fields, (RedisKeys.linkStatsKey code, some fields) ∈ replies.scanned)
    (code : String) (day : NaiveDate) : replies.linkDaily.get (code, day) = counts code day := by
  have hone : ∀ e ∈ replies.scanned.flatMap linkEntries, ∀ e' ∈ replies.scanned.flatMap linkEntries,
      e.1 = e'.1 → e = e' := by
    rintro ⟨⟨code, day⟩, clicks⟩ he ⟨⟨code', day'⟩, clicks'⟩ he' heq
    obtain ⟨rfl, rfl⟩ := Prod.mk.inj heq
    obtain ⟨fields, hmem, hget⟩ := mem_linkEntries.mp he
    obtain ⟨fields', hmem', hget'⟩ := mem_linkEntries.mp he'
    rw [hcounts _ _ hmem] at hget
    rw [hcounts _ _ hmem', hget] at hget'
    rw [Option.some.inj hget']
  ext clicks
  rw [Replies.linkDaily, HashMap.get_ofList_eq_some_iff hone, mem_linkEntries]
  constructor
  · rintro ⟨fields, hmem, hget⟩
    rwa [hcounts _ _ hmem] at hget
  · intro hcount
    obtain ⟨fields, hmem⟩ := hscanned code day clicks hcount
    exact ⟨fields, hmem, (hcounts _ _ hmem day).trans hcount⟩

/-! ## When a capture succeeds -/

section Capture

variable {now : DateTime} {k : Keyspace} {replies : Replies} {s : RedisSnapshot}

/-- **What a capture returns.** -/
theorem captureSnapshot_ok_iff : k.captureSnapshot now replies = .ok s ↔
    replies.Hashes ∧ ∃ fields lastClickedAt, replies.globalFields = some fields ∧
      k.lastClickedAtBatch (replies.order (linkCodes replies.linkDaily)) = .ok lastClickedAt ∧
      s = { globalDaily := (Snapshot.parseDailyCounts fields).1
            linkDaily := replies.linkDaily
            lastClickedAt
            staleGlobal := staleGlobalFields (Snapshot.parseDailyCounts fields).1 (staleCutoff now)
            staleLinks := staleLinkFields replies.linkDaily (staleCutoff now) } := by
  unfold Keyspace.captureSnapshot
  cases hloop : replies.scanned.foldlM captureLink HashMap.empty with
  | error e =>
    have hnot : ¬ replies.Hashes := fun h => by
      rw [captureLinks_ok_iff.mpr ⟨h, rfl⟩] at hloop
      cases hloop
    exact ⟨fun h => (by cases h), fun h => absurd h.1 hnot⟩
  | ok linkDaily =>
    obtain ⟨hhashes, rfl⟩ := captureLinks_ok_iff.mp hloop
    cases replies.globalFields with
    | none => exact ⟨fun h => (by cases h), fun ⟨_, _, _, h, _⟩ => (by cases h)⟩
    | some fields =>
      cases hbatch : k.lastClickedAtBatch (replies.order (linkCodes replies.linkDaily)) with
      | error e =>
        simp only [hbatch]
        exact ⟨fun h => (by cases h), fun ⟨_, _, _, _, h, _⟩ => (by cases h)⟩
      | ok lastClickedAt =>
        simp only [hbatch, Except.ok.injEq]
        constructor
        · rintro rfl
          exact ⟨hhashes, fields, lastClickedAt, rfl, rfl, rfl⟩
        · rintro ⟨-, fields', lastClickedAt', hfields, rfl, rfl⟩
          obtain rfl := Option.some.inj hfields
          rfl

/-- The hash of this code has a well-formed field. -/
def Keyspace.HasEntry (k : Keyspace) (code : String) : Prop :=
  ∃ fields ∈ k.hgetall (RedisKeys.linkStatsKey code), ∃ field value,
    fields.get field = some value ∧ (Snapshot.fieldEntry (field, value)).isSome = true

/-- The contents that a capture can read: the stats keys hold hashes of texts, and a link with a
well-formed field has a last click that is one, or none. -/
structure Keyspace.Readable (k : Keyspace) : Prop where
  links : ∀ code, (k.hgetall (RedisKeys.linkStatsKey code)).isSome = true
  globalKey : (k.hgetall RedisKeys.globalStatsKey).isSome = true
  decodes : ∀ code, k.HasEntry code → k.isBinary (RedisKeys.linkLastClickedAtKey code) = false
  timestamps : ∀ code, k.HasEntry code →
    ∀ value ∈ k.text (RedisKeys.linkLastClickedAtKey code), (timestamp value).isSome = true

/-- A missing key counts as an empty hash. -/
theorem hgetall_of_notMem {key : String} (h : key ∉ k.keys.keys) :
    k.hgetall key = some Table.empty := by
  unfold Keyspace.hgetall
  rw [Table.get_eq_none_iff.mpr h]

/-- The fields that are read are those of the hash. -/
theorem hgetall_of_scanned (hanswers : k.Answers replies) {key : String}
    {fields : HashMap String String} (h : (key, some fields) ∈ replies.scanned) :
    k.hgetall key = some fields.toTable :=
  (hanswers.hgetall _ h).symm

/-- A link is scanned if it has a field. -/
theorem scanned_of_field (hanswers : k.Answers replies) {code : String}
    {fields : Table String String} (hfields : k.hgetall (RedisKeys.linkStatsKey code) = some fields)
    {field value : String} (hfield : fields.get field = some value) :
    ∃ m, (RedisKeys.linkStatsKey code, some m) ∈ replies.scanned ∧ m.toTable = fields := by
  have hkey : RedisKeys.linkStatsKey code ∈ k.keys.keys := by
    by_contra hnot
    rw [hgetall_of_notMem hnot] at hfields
    obtain rfl := Option.some.inj hfields
    cases hfield
  have hscanned := hanswers.complete _ hkey (RedisKeys.glob_linkStatsKey_iff.mpr ⟨code, rfl⟩)
  obtain ⟨⟨key, answer⟩, he, rfl⟩ := List.mem_map.mp hscanned
  have hanswer := (hanswers.hgetall _ he).trans hfields
  obtain ⟨m, rfl, hm⟩ := Option.map_eq_some_iff.mp hanswer
  exact ⟨m, he, hm⟩

/-- The hash under this key has a well-formed field of this day. -/
def Keyspace.HasDay (k : Keyspace) (key : String) (day : NaiveDate) : Prop :=
  ∃ fields ∈ k.hgetall key, ∃ field value clicks,
    fields.get field = some value ∧ Snapshot.fieldEntry (field, value) = some (day, clicks)

theorem Keyspace.hasEntry_iff_hasDay {code : String} :
    k.HasEntry code ↔ ∃ day, k.HasDay (RedisKeys.linkStatsKey code) day := by
  constructor
  · rintro ⟨fields, hfields, field, value, hfield, hsome⟩
    obtain ⟨⟨day, clicks⟩, hentry⟩ := Option.isSome_iff_exists.mp hsome
    exact ⟨day, fields, hfields, field, value, clicks, hfield, hentry⟩
  · rintro ⟨day, fields, hfields, field, value, clicks, hfield, hentry⟩
    exact ⟨fields, hfields, field, value, hfield, by rw [hentry]; rfl⟩

/-- The days that an answer to `HGETALL` is parsed to. -/
theorem Keyspace.hasDay_iff {key : String} {fields : HashMap String String}
    (hfields : k.hgetall key = some fields.toTable) {day : NaiveDate} :
    k.HasDay key day ↔ day ∈ (Snapshot.parseDailyCounts fields).1.keys := by
  rw [Snapshot.mem_keys_parseDailyCounts]
  constructor
  · rintro ⟨fields', hfields', field, value, clicks, hfield, hentry⟩
    obtain rfl := Option.some.inj (hfields.symm.trans hfields')
    exact ⟨(field, value), (HashMap.get_eq_some_iff _).mp hfield, clicks, hentry⟩
  · rintro ⟨e, he, clicks, hentry⟩
    exact ⟨_, hfields, e.1, e.2, clicks, (HashMap.get_eq_some_iff _).mpr he, hentry⟩

/-- **The buckets of a capture** are the days of the links with a well-formed field. -/
theorem mem_keys_linkDaily_iff (hanswers : k.Answers replies) {code : String} {day : NaiveDate} :
    (code, day) ∈ replies.linkDaily.keys ↔ k.HasDay (RedisKeys.linkStatsKey code) day := by
  rw [Replies.linkDaily, HashMap.mem_keys_ofList, List.mem_map]
  constructor
  · rintro ⟨⟨_, clicks⟩, hmem, rfl⟩
    obtain ⟨fields, hscanned, hday⟩ := mem_linkEntries.mp hmem
    have hkey := HashMap.mem_keys_of_mem ((HashMap.get_eq_some_iff _).mp hday)
    exact (Keyspace.hasDay_iff (hgetall_of_scanned hanswers hscanned)).mpr hkey
  · intro hday
    obtain ⟨fields, hfields, field, value, clicks, hfield, hentry⟩ := id hday
    obtain ⟨m, hscanned, rfl⟩ := scanned_of_field hanswers hfields hfield
    -- the day has an entry, though another field of the same day may have replaced the count
    obtain ⟨clicks', hclicks⟩ := Option.isSome_iff_exists.mp
      ((HashMap.isSome_get_iff _).mpr ((Keyspace.hasDay_iff hfields).mp hday))
    exact ⟨_, mem_linkEntries.mpr ⟨m, hscanned, hclicks⟩, rfl⟩

/-- The codes of a capture are those with a well-formed field. -/
theorem mem_linkCodes_iff (hanswers : k.Answers replies) {code : String} :
    code ∈ linkCodes replies.linkDaily ↔ k.HasEntry code := by
  simp only [linkCodes, List.mem_dedup, List.mem_map, Prod.exists, exists_and_right,
    exists_eq_right, mem_keys_linkDaily_iff hanswers, Keyspace.hasEntry_iff_hasDay]

/-- **The contents on which a capture succeeds.** -/
theorem captureSnapshot_isOk_iff (now : DateTime) (hanswers : k.Answers replies) :
    (∃ s, k.captureSnapshot now replies = .ok s) ↔ k.Readable := by
  -- the last clicks are fetched for the codes with counts, in whatever order
  have hbatch : (∃ m, k.lastClickedAtBatch (replies.order (linkCodes replies.linkDaily)) = .ok m) ↔
      (∀ code, k.HasEntry code → k.isBinary (RedisKeys.linkLastClickedAtKey code) = false) ∧
        ∀ code, k.HasEntry code → ∀ value ∈ k.text (RedisKeys.linkLastClickedAtKey code),
          (timestamp value).isSome = true := by
    rw [lastClickedAtBatch_ok_iff]
    simp only [Decodes, (hanswers.order _).mem_iff, mem_linkCodes_iff hanswers]
  have hglobal : replies.globalFields.isSome = (k.hgetall RedisKeys.globalStatsKey).isSome := by
    rw [← hanswers.hgetallGlobal, Option.isSome_map]
  -- `SCAN` brings every key, so what was seen of the hashes is what they are
  have hlinks : replies.Hashes ↔
      ∀ code, (k.hgetall (RedisKeys.linkStatsKey code)).isSome = true := by
    constructor
    · intro hhashes code
      by_cases hkey : RedisKeys.linkStatsKey code ∈ k.keys.keys
      · -- a key that is there is scanned, so that its type was seen
        have hscanned := hanswers.complete _ hkey
          (RedisKeys.glob_linkStatsKey_iff.mpr ⟨code, rfl⟩)
        obtain ⟨e, he, heq⟩ := List.mem_map.mp hscanned
        have hcode := RedisKeys.stripPrefix_linkStatsKey_iff.mpr heq
        rw [← heq, ← hanswers.hgetall e he, Option.isSome_map]
        exact hhashes e he (by rw [hcode]; rfl)
      · rw [hgetall_of_notMem hkey]
        rfl
    · intro hfields e he hsome
      obtain ⟨code, hcode⟩ := Option.isSome_iff_exists.mp hsome
      have hkey := hfields code
      rwa [← RedisKeys.stripPrefix_linkStatsKey_iff.mp hcode, ← hanswers.hgetall e he,
        Option.isSome_map] at hkey
  constructor
  · rintro ⟨s, hs⟩
    obtain ⟨hhashes, fields, lastClickedAt, hfields, hclicked, -⟩ := captureSnapshot_ok_iff.mp hs
    obtain ⟨hdecodes, htimestamps⟩ := hbatch.mp ⟨_, hclicked⟩
    exact ⟨hlinks.mp hhashes, by rw [← hglobal, hfields]; rfl, hdecodes, htimestamps⟩
  · rintro ⟨hhashes, hkey, hdecodes, htimestamps⟩
    rw [← hglobal] at hkey
    obtain ⟨fields, hfields⟩ := Option.isSome_iff_exists.mp hkey
    obtain ⟨lastClickedAt, hclicked⟩ := hbatch.mpr ⟨hdecodes, htimestamps⟩
    exact ⟨_, captureSnapshot_ok_iff.mpr
      ⟨hlinks.mpr hhashes, fields, lastClickedAt, hfields, hclicked, rfl⟩⟩

end Capture

end Kurl
