import CBindings.Proofs.Json.RoundTrip
import CBindings.Report.Basic
import Mathlib.Data.List.Induction
import Mathlib.Data.List.Nodup

/-! Reports that are written and read again. -/

namespace CBindings

namespace OrderedMap

variable {κ α : Type} [DecidableEq κ]

theorem entries_ofList {pairs : List (κ × α)} (distinct : (pairs.map Prod.fst).Nodup) :
    (ofList pairs).entries = pairs := by
  have put_new : ∀ (pairs : List (κ × α)) key value, key ∉ pairs.map Prod.fst →
      put key value pairs = pairs ++ [(key, value)] := by
    intro pairs key value absent
    induction pairs with
    | nil => rfl
    | cons first rest ih =>
      rw [List.map_cons, List.mem_cons, not_or] at absent
      rw [put, if_neg (Ne.symm absent.1), ih absent.2]
      rfl
  induction pairs using List.reverseRecOn with
  | nil => rfl
  | append_singleton pairs last ih =>
    rw [List.map_append, List.nodup_append] at distinct
    have absent : last.1 ∉ pairs.map Prod.fst := fun member =>
      distinct.2.2 _ member _ List.mem_cons_self rfl
    have entries : (ofList (pairs ++ [last])).entries =
        put last.1 last.2 (ofList pairs).entries := by
      rw [ofList_concat]
      rfl
    rw [entries, ih distinct.1, put_new _ _ _ absent]

end OrderedMap

namespace Json

theorem ofString_injective : Function.Injective JsonText.ofString := by
  intro first second same
  have chars := List.map_injective_iff.mpr (fun _ _ unit => TextUnit.char.inj unit) same
  exact String.toList_injective chars

theorem get?_object (members : List (String × Json)) (key : String) :
    (object members).get? key = members.lookup key := by
  rw [object, get?]
  induction members with
  | nil => rfl
  | cons first rest ih =>
    obtain ⟨name, value⟩ := first
    simp only [List.map_cons, List.lookup_cons]
    by_cases same : key = name
    · simp only [same, BEq.rfl]
    · have other : JsonText.ofString key ≠ JsonText.ofString name := ofString_injective.ne same
      simp only [beq_eq_false_iff_ne.mpr same, beq_eq_false_iff_ne.mpr other]
      exact ih

theorem exactItems_iff {items : List Json} :
    ExactItems items ↔ ∀ item ∈ items, item.IsExact := by
  induction items with
  | nil => simp [ExactItems]
  | cons first rest ih => rw [ExactItems, ih, List.forall_mem_cons]

theorem exactMembers_iff {members : List (JsonText × Json)} :
    ExactMembers members ↔ ∀ member ∈ members, member.2.IsExact := by
  induction members with
  | nil => simp [ExactMembers]
  | cons first rest ih => rw [ExactMembers, ih, List.forall_mem_cons]

theorem isExact_object {members : List (String × Json)} :
    (object members).IsExact ↔ ∀ member ∈ members, member.2.IsExact := by
  rw [object, IsExact, exactMembers_iff, List.forall_mem_map]

theorem settledItems_eq (items : List Json) : settledItems items = items.map settled := by
  induction items with
  | nil => rfl
  | cons first rest ih => rw [settledItems, ih, List.map_cons]

theorem settledMembers_eq (members : List (JsonText × Json)) :
    settledMembers members = members.map fun member => (member.1.joined, member.2.settled) := by
  induction members with
  | nil => rfl
  | cons first rest ih => rw [settledMembers, ih, List.map_cons]

theorem object_eq (members : List (String × Json)) : object members =
    .keyed (members.map fun member => (JsonText.ofString member.1, member.2)) := rfl

/-- An object with different keys that hold no halves keeps all its members. -/
theorem settled_object {members : List (String × Json)}
    (distinct : (members.map Prod.fst).Nodup) : (object members).settled =
      object (members.map fun member => (member.1, member.2.settled)) := by
  rw [object_eq, object_eq, settled, settledMembers_eq, OrderedMap.entries_ofList]
  · simp [JsonText.joined_ofString]
  · have keys := distinct.map ofString_injective
    simpa [Function.comp_def, JsonText.joined_ofString] using keys

theorem isNull_settled (value : Json) : value.settled.isNull = value.isNull := by
  cases value <;> rfl

end Json

/-! ### Issues -/

namespace Issue

def settled (issue : Issue) : Issue where
  kind := issue.kind.settled
  message := issue.message.settled
  header := issue.header.settled
  line := issue.line.settled
  symbol := issue.symbol.settled
  severity := issue.severity.settled

def parts (issue : Issue) : List Json :=
  [issue.kind, issue.severity, issue.message, issue.header, issue.line, issue.symbol]

def optional (key : String) (value : Json) : List (String × Json) :=
  if value.isNull then [] else [(key, value)]

def members (issue : Issue) : List (String × Json) :=
  [("kind", issue.kind), ("severity", issue.severity), ("message", issue.message)] ++
    optional "header" issue.header ++ optional "line" issue.line ++ optional "symbol" issue.symbol

theorem toJson_eq (issue : Issue) : issue.toJson = .object issue.members := rfl

theorem lookup_optional (key : String) (value : Json) (name : String) :
    (optional key value).lookup name =
      if name = key then if value.isNull then none else some value else none := by
  unfold optional
  split
  · simp
  · by_cases same : name = key
    · simp [same]
    · simp [same, List.lookup_cons, beq_eq_false_iff_ne.mpr same]

theorem getD_optional (value : Json) :
    (if value.isNull then none else some value).getD .null = value := by
  cases value <;> rfl

/-- An issue is read again from its members. What is left out is read as null. -/
theorem ofJson_toJson (issue : Issue) : ofJson issue.toJson = .ok issue := by
  have member : ∀ key, issue.toJson.get? key = issue.members.lookup key :=
    Json.get?_object issue.members
  have kind : issue.toJson.get? "kind" = some issue.kind := member "kind"
  have message : issue.toJson.get? "message" = some issue.message := member "message"
  have severity : issue.toJson.get? "severity" = some issue.severity := member "severity"
  have header : (issue.toJson.get? "header").getD .null = issue.header := by
    simp [member, members, List.lookup_append, List.lookup_cons, lookup_optional, getD_optional]
  have line : (issue.toJson.get? "line").getD .null = issue.line := by
    simp [member, members, List.lookup_append, List.lookup_cons, lookup_optional, getD_optional]
  have symbol : (issue.toJson.get? "symbol").getD .null = issue.symbol := by
    simp [member, members, List.lookup_append, List.lookup_cons, lookup_optional, getD_optional]
  unfold ofJson
  split
  · simp only [kind, message, severity, header, line, symbol]
    rfl
  · next other => exact absurd rfl (other _)

theorem map_settled_optional (key : String) (value : Json) :
    (optional key value).map (fun member => (member.1, member.2.settled)) =
      optional key value.settled := by
  unfold optional
  rw [Json.isNull_settled]
  split <;> rfl

theorem nodup_members (issue : Issue) : (issue.members.map Prod.fst).Nodup := by
  have part : ∀ key value, ((optional key value).map Prod.fst).Sublist [key] := by
    intro key value
    unfold optional
    split
    · exact List.nil_sublist _
    · exact List.Sublist.refl _
  have keys : (issue.members.map Prod.fst).Sublist
      (["kind", "severity", "message"] ++ ["header"] ++ ["line"] ++ ["symbol"]) := by
    simp only [members, List.map_append]
    exact ((List.Sublist.refl _ |>.append (part _ _)).append (part _ _)).append (part _ _)
  exact keys.nodup (by decide)

/-- What is read of the members of an issue are those of the issue that is read. -/
theorem settled_toJson (issue : Issue) : issue.toJson.settled = issue.settled.toJson := by
  rw [toJson_eq, toJson_eq, Json.settled_object (nodup_members issue)]
  simp only [members, List.map_append, map_settled_optional]
  rfl

theorem isExact_toJson {issue : Issue} (exactParts : ∀ part ∈ issue.parts, part.IsExact) :
    issue.toJson.IsExact := by
  have optional : ∀ key value, value ∈ issue.parts →
      ∀ member ∈ optional key value, member.2.IsExact := by
    intro key value part member inside
    unfold Issue.optional at inside
    split at inside
    · cases inside
    · rw [List.mem_singleton] at inside
      exact inside ▸ exactParts value part
  rw [toJson_eq, Json.isExact_object]
  simp only [members, List.forall_mem_append]
  refine ⟨⟨⟨?_, optional _ _ ?_⟩, optional _ _ ?_⟩, optional _ _ ?_⟩
  · simp only [List.forall_mem_cons]
    exact ⟨exactParts _ (by simp [parts]), exactParts _ (by simp [parts]),
      exactParts _ (by simp [parts]), nofun⟩
  all_goals simp [parts]

end Issue

/-! ### Counts -/

/-- A fold whose steps succeed where a property holds, and keep it, succeeds and ends with it. -/
theorem exists_foldlM {α β ε : Type} (holds : β → Prop) {f : β → α → Except ε β} {items : List α}
    {state : β} (start : holds state)
    (steps : ∀ item ∈ items, ∀ state, holds state → ∃ next, f state item = .ok next ∧ holds next) :
    ∃ last, items.foldlM f state = .ok last ∧ holds last := by
  induction items generalizing state with
  | nil => exact ⟨state, rfl, start⟩
  | cons first rest ih =>
    rw [List.forall_mem_cons] at steps
    obtain ⟨next, stepped, kept⟩ := steps.1 state start
    obtain ⟨last, folded, ends⟩ := ih kept steps.2
    refine ⟨last, ?_, ends⟩
    rw [List.foldlM_cons, stepped]
    exact folded

def Json.IsText (value : Json) : Prop := ∃ units, value = .text units

namespace Issue

theorem exists_tally {issues : List Issue} (kinds : ∀ issue ∈ issues, issue.kind.IsText) :
    ∃ counts, tally issues = .ok counts ∧ ∀ pair ∈ counts.entries, pair.2.1.IsText := by
  apply exists_foldlM fun counts : Tally => ∀ pair ∈ counts.entries, pair.2.1.IsText
  · exact nofun
  · intro issue member counts texts
    obtain ⟨units, kind⟩ := kinds issue member
    have scalar : issue.kind.scalar = .ok (.text units) := by rw [kind]; rfl
    refine ⟨_, by rw [scalar]; rfl, ?_⟩
    intro pair inside
    rcases OrderedMap.mem_insert inside with old | rfl
    · exact texts pair old
    · cases found : counts.get? (.text units) with
      | none => exact ⟨units, kind⟩
      | some known => exact texts (_, known) (OrderedMap.mem_of_get? found)

end Issue

namespace Report

theorem exists_place {pair : Json × Nat} {sorted : List (Json × Nat)} (text : pair.1.IsText)
    (texts : ∀ pair ∈ sorted, pair.1.IsText) :
    ∃ placed, place pair sorted = .ok placed ∧ ∀ pair ∈ placed, pair.1.IsText := by
  induction sorted with
  | nil => exact ⟨[pair], rfl, by simpa using text⟩
  | cons greatest rest ih =>
    rw [List.forall_mem_cons] at texts
    obtain ⟨a, small⟩ := text
    obtain ⟨b, great⟩ := texts.1
    obtain ⟨placed, below, stay⟩ := ih texts.2
    have compared : precedes pair.1 greatest.1 = .ok (decide (a.map Scalar.codeOf <
        b.map Scalar.codeOf)) := by
      rw [small, great]
      rfl
    rw [place, compared]
    by_cases before : a.map Scalar.codeOf < b.map Scalar.codeOf
    · refine ⟨greatest :: placed, ?_, ?_⟩
      · rw [decide_eq_true before, below]
        rfl
      · exact List.forall_mem_cons.mpr ⟨texts.1, stay⟩
    · refine ⟨pair :: greatest :: rest, ?_, ?_⟩
      · rw [decide_eq_false before]
        rfl
      · exact List.forall_mem_cons.mpr ⟨⟨a, small⟩, List.forall_mem_cons.mpr texts⟩

theorem exists_countsByKind {r : Report} (kinds : ∀ issue ∈ r.issues, issue.kind.IsText) :
    ∃ counts, r.countsByKind = .ok counts := by
  obtain ⟨counts, tallied, texts⟩ := Issue.exists_tally kinds
  obtain ⟨sorted, folded, -⟩ : ∃ sorted,
      counts.values.foldlM (fun sorted pair => place pair sorted) [] = .ok sorted ∧
        ∀ pair ∈ sorted, pair.1.IsText := by
    apply exists_foldlM fun sorted : List (Json × Nat) => ∀ pair ∈ sorted, pair.1.IsText
    · exact nofun
    · intro pair member sorted ordered
      obtain ⟨entry, inside, rfl⟩ := List.mem_map.mp member
      exact exists_place (texts entry inside) ordered
  refine ⟨sorted.reverse, ?_⟩
  have counted : Issue.countByKind r.issues = .ok counts.values := by
    rw [Issue.countByKind, tallied]
    rfl
  have sum : r.countsByKind = (do
      return (← counts.values.foldlM (fun sorted pair => place pair sorted) []).reverse) := by
    rw [countsByKind, counted]
    rfl
  rw [sum, folded]
  rfl

end Report

/-! ### Reports -/

namespace Report

def settled (r : Report) : Report where
  entry := r.entry.settled
  target := r.target.settled
  headers := r.headers.map Json.settled
  issues := r.issues.map Issue.settled

def parts (r : Report) : List Json :=
  r.entry :: r.target :: (r.headers ++ r.issues.flatMap Issue.parts)

def members (r : Report) (counts : List (Json × Nat)) : List (String × Json) :=
  [("schema_version", .string schemaVersion),
    ("entry", r.entry),
    ("arch", r.target),
    ("headers", .array r.headers),
    ("summary", .object [
      ("total", .int r.issues.length),
      ("errors", .int r.errorCount),
      ("warnings", .int r.warningCount),
      ("by_kind", .keyed (counts.map fun (kind, n) => (keyText kind, .int n)))]),
    ("diagnostics", .array (r.issues.map Issue.toJson))]

theorem toJson_eq {r : Report} {counts : List (Json × Nat)}
    (counted : r.countsByKind = .ok counts) : r.toJson = .ok (.object (r.members counts)) := by
  rw [toJson, counted]
  rfl

theorem isExact_members {r : Report} (exactParts : ∀ part ∈ r.parts, part.IsExact)
    (counts : List (Json × Nat)) : (Json.object (r.members counts)).IsExact := by
  have headers : (Json.array r.headers).IsExact := by
    rw [Json.IsExact, Json.exactItems_iff]
    exact fun header member => exactParts header (by simp [parts, member])
  have issues : (Json.array (r.issues.map Issue.toJson)).IsExact := by
    rw [Json.IsExact, Json.exactItems_iff, List.forall_mem_map]
    intro issue member
    apply Issue.isExact_toJson
    intro part inside
    have held : part ∈ r.issues.flatMap Issue.parts := List.mem_flatMap.mpr ⟨issue, member, inside⟩
    exact exactParts part (by simp only [parts, List.mem_cons, List.mem_append, held, or_true])
  have kinds : (Json.keyed (counts.map fun (kind, n) => (keyText kind, .int n))).IsExact := by
    rw [Json.IsExact, Json.exactMembers_iff, List.forall_mem_map]
    exact fun _ _ => trivial
  simp only [members, Json.isExact_object, List.forall_mem_cons]
  exact ⟨trivial, exactParts _ (by simp [parts]), exactParts _ (by simp [parts]), headers,
    ⟨trivial, trivial, trivial, kinds, nofun⟩, issues, nofun⟩

theorem mapM_ofJson (issues : List Issue) :
    (issues.map Issue.toJson).mapM Issue.ofJson = .ok issues := by
  induction issues with
  | nil => rfl
  | cons first rest ih =>
    rw [List.map_cons, List.mapM_cons, Issue.ofJson_toJson, ih]
    rfl

theorem ofJson_members (r : Report) (counts : List (Json × Nat)) :
    ofJson (Json.object (r.members counts)).settled = .ok r.settled := by
  set value := (Json.object (r.members counts)).settled with spelled
  have keys : ((r.members counts).map Prod.fst).Nodup := by
    have listed : (r.members counts).map Prod.fst =
        ["schema_version", "entry", "arch", "headers", "summary", "diagnostics"] := rfl
    rw [listed]
    decide
  have member : ∀ key, value.get? key =
      ((r.members counts).map fun member => (member.1, member.2.settled)).lookup key := by
    intro key
    rw [spelled, Json.settled_object keys, Json.get?_object]
  have entry : value.get? "entry" = some r.entry.settled := member "entry"
  have target : value.get? "arch" = some r.target.settled := member "arch"
  have headers : value.get? "headers" = some (.array (r.headers.map Json.settled)) :=
    (member "headers").trans (by rw [← Json.settledItems_eq]; rfl)
  have issues : value.get? "diagnostics" =
      some (.array ((r.issues.map Issue.settled).map Issue.toJson)) := by
    have each : (r.issues.map Issue.toJson).map Json.settled =
        (r.issues.map Issue.settled).map Issue.toJson := by
      rw [List.map_map, List.map_map]
      exact List.map_congr_left fun issue _ => Issue.settled_toJson issue
    rw [← each, ← Json.settledItems_eq]
    exact member "diagnostics"
  rw [ofJson, issues]
  simp only [Json.items, headers, entry, target, Option.getD_some]
  change ((r.issues.map Issue.settled).map Issue.toJson).mapM Issue.ofJson >>= _ = _
  rw [mapM_ofJson]
  rfl

/-- A report whose kinds are texts, and that has no number with a fraction, is written, and read
again with the pairs in its texts joined. -/
theorem ofText_render {r : Report} (kinds : ∀ issue ∈ r.issues, issue.kind.IsText)
    (exactParts : ∀ part ∈ r.parts, part.IsExact) (indent : Option Nat) :
    ∃ text, r.render indent = .ok text ∧ ofText (.ofString text) = .ok r.settled := by
  obtain ⟨counts, counted⟩ := exists_countsByKind kinds
  refine ⟨(Json.object (r.members counts)).render indent, ?_, ?_⟩
  · rw [render, toJson_eq counted]
    rfl
  · rw [ofText, Json.read?_render _ (isExact_members exactParts counts)]
    exact ofJson_members r counts

end Report

/-! ### What comes back as it was -/

/-- The parts have values of the types that those of a run have. A text may hold halves of pairs. -/
structure Issue.IsTyped (issue : Issue) : Prop where
  kind : issue.kind.IsText
  severity : issue.severity.IsText
  message : issue.message.IsText
  header : issue.header = .null ∨ issue.header.IsText
  line : issue.line = .null ∨ ∃ n, issue.line = .int n
  symbol : issue.symbol = .null ∨ issue.symbol.IsText

namespace Report

structure IsTyped (r : Report) : Prop where
  entry : r.entry.IsText
  target : r.target.IsText
  headers : ∀ header ∈ r.headers, header.IsText
  issues : ∀ issue ∈ r.issues, issue.IsTyped

/-- A report is written, and what is read of that equals the report. -/
def ReadsBack (r : Report) (indent : Option Nat) : Prop :=
  ∃ text again, r.render indent = .ok text ∧ ofText (.ofString text) = .ok again ∧
    again.equals r = true

variable {r : Report} {part : Json}

theorem IsTyped.of_mem (typed : r.IsTyped) (member : part ∈ r.parts) :
    part = .null ∨ (∃ n, part = .int n) ∨ part.IsText := by
  simp only [parts, List.mem_cons, List.mem_append, List.mem_flatMap] at member
  rcases member with rfl | rfl | inHeaders | ⟨issue, known, inIssue⟩
  · exact .inr (.inr typed.entry)
  · exact .inr (.inr typed.target)
  · exact .inr (.inr (typed.headers part inHeaders))
  · have issue := typed.issues issue known
    simp only [Issue.parts, List.mem_cons, List.not_mem_nil, or_false] at inIssue
    rcases inIssue with rfl | rfl | rfl | rfl | rfl | rfl
    · exact .inr (.inr issue.kind)
    · exact .inr (.inr issue.severity)
    · exact .inr (.inr issue.message)
    · exact issue.header.imp_right .inr
    · exact issue.line.imp_right .inl
    · exact issue.symbol.imp_right .inr

theorem equalItems_map {f : Json → Json} {items : List Json} :
    Json.equalItems (items.map f) items = true ↔ ∀ item ∈ items, (f item).equals item = true := by
  induction items with
  | nil => simp [Json.equalItems]
  | cons first rest ih =>
    rw [List.map_cons, Json.equalItems, Bool.and_eq_true, ih, List.forall_mem_cons]

theorem all_zip_map {α : Type} {p : α → α → Bool} {f : α → α} {items : List α} :
    ((items.map f).zip items).all (fun (a, b) => p a b) = true ↔
      ∀ item ∈ items, p (f item) item = true := by
  induction items with
  | nil => simp
  | cons first rest ih =>
    rw [List.map_cons, List.zip_cons_cons, List.all_cons, Bool.and_eq_true, ih,
      List.forall_mem_cons]

theorem equals_settled_iff :
    r.settled.equals r = true ↔ ∀ part ∈ r.parts, part.settled.equals part = true := by
  have issue : ∀ issue : Issue, issue.settled.equals issue = true ↔
      ∀ part ∈ issue.parts, part.settled.equals part = true := by
    rintro ⟨kind, message, header, line, symbol, severity⟩
    simp only [Issue.settled, Issue.equals, Issue.parts, Bool.and_eq_true, List.forall_mem_cons]
    constructor
    · rintro ⟨⟨⟨⟨⟨kind, message⟩, header⟩, line⟩, symbol⟩, severity⟩
      exact ⟨kind, severity, message, header, line, symbol, nofun⟩
    · rintro ⟨kind, severity, message, header, line, symbol, -⟩
      exact ⟨⟨⟨⟨⟨kind, message⟩, header⟩, line⟩, symbol⟩, severity⟩
  obtain ⟨entry, target, headers, issues⟩ := r
  simp only [settled, equals, parts, Bool.and_eq_true, decide_eq_true_eq, List.length_map,
    and_true, equalItems_map, all_zip_map, issue, List.forall_mem_cons, List.forall_mem_append,
    List.forall_mem_flatMap, and_assoc]

theorem IsTyped.equals_settled_iff (typed : r.IsTyped) :
    r.settled.equals r = true ↔ ∀ text, .text text ∈ r.parts → ¬text.IsSplit := by
  have text_iff : ∀ text : JsonText,
      (Json.text text).settled.equals (.text text) = true ↔ ¬text.IsSplit := by
    intro text
    rw [← JsonText.joined_eq_self_iff, Json.settled, Json.equals.eq_def]
    simp [Json.scalar?]
  rw [Report.equals_settled_iff]
  constructor
  · exact fun same text member => (text_iff text).mp (same _ member)
  · intro whole part member
    rcases typed.of_mem member with rfl | ⟨n, rfl⟩ | ⟨text, rfl⟩
    · rfl
    · rw [Json.settled, Json.equals.eq_def]
      simp [Json.scalar?]
    · exact (text_iff text).mpr (whole text member)

theorem IsTyped.readsBack_iff (typed : r.IsTyped) (indent : Option Nat) :
    r.ReadsBack indent ↔ ∀ text, .text text ∈ r.parts → ¬text.IsSplit := by
  have exactParts : ∀ part ∈ r.parts, part.IsExact := by
    intro part member
    rcases typed.of_mem member with rfl | ⟨n, rfl⟩ | ⟨text, rfl⟩ <;> trivial
  obtain ⟨text, rendered, read⟩ :=
    ofText_render (fun issue member => (typed.issues issue member).kind) exactParts indent
  rw [← typed.equals_settled_iff]
  constructor
  · rintro ⟨other, again, written, reread, same⟩
    cases rendered.symm.trans written
    cases read.symm.trans reread
    exact same
  · exact fun same => ⟨text, r.settled, rendered, read, same⟩

theorem isTyped_ofRun (entry target : String) (headers : List String)
    (diagnostics : List Diagnostic) : (ofRun entry target headers diagnostics).IsTyped := by
  have option : ∀ text : Option String,
      Json.ofOption Json.string text = .null ∨ (Json.ofOption Json.string text).IsText := by
    rintro (_ | text)
    · exact .inl rfl
    · exact .inr ⟨_, rfl⟩
  constructor
  · exact ⟨_, rfl⟩
  · exact ⟨_, rfl⟩
  · exact List.forall_mem_map.mpr fun header _ => ⟨_, rfl⟩
  · refine List.forall_mem_map.mpr fun d _ => ?_
    refine ⟨⟨_, rfl⟩, ⟨_, rfl⟩, ⟨_, rfl⟩, option d.header, ?_, option d.symbol⟩
    cases line : d.line with
    | none => exact .inl (by simp [Issue.ofDiagnostic, line, Json.ofOption])
    | some n => exact .inr ⟨n, by simp [Issue.ofDiagnostic, line, Json.ofOption]⟩

theorem text_of_run {entry target : String} {headers : List String} {diagnostics : List Diagnostic}
    {text : JsonText} (member : .text text ∈ (ofRun entry target headers diagnostics).parts) :
    ∃ s, text = JsonText.ofString s := by
  have string : ∀ s, Json.text text = .string s → ∃ s, text = JsonText.ofString s :=
    fun s same => ⟨s, Json.text.inj same⟩
  have option : ∀ s?, Json.text text = .ofOption .string s? → ∃ s, text = JsonText.ofString s := by
    rintro (_ | s) same
    · cases same
    · exact string s same
  simp only [ofRun, parts, List.mem_cons, List.mem_append, List.mem_map, List.mem_flatMap] at member
  rcases member with same | same | ⟨header, -, same⟩ | ⟨issue, ⟨d, -, rfl⟩, inIssue⟩
  · exact string entry same
  · exact string target same
  · exact string header same.symm
  · simp only [Issue.parts, Issue.ofDiagnostic, List.mem_cons, List.not_mem_nil,
      or_false] at inIssue
    rcases inIssue with same | same | same | same | same | same
    · exact string d.kind same
    · exact string d.severity same
    · exact string d.message same
    · exact option d.header same
    · cases line : d.line <;> rw [line] at same <;> cases same
    · exact option d.symbol same

/-- The report of any run is read back as it was, from one line or with any indentation. So is any
report with parts of the same types, unless one of its texts has the two halves of a pair side by
side: these are written like the character they make up. -/
theorem survives_serialization :
    (∀ entry target headers diagnostics indent,
      (ofRun entry target headers diagnostics).ReadsBack indent) ∧
    ∀ r : Report, r.IsTyped → ∀ indent,
      (r.ReadsBack indent ↔ ∀ text, .text text ∈ r.parts → ¬text.IsSplit) := by
  refine ⟨?_, fun r typed indent => typed.readsBack_iff indent⟩
  intro entry target headers diagnostics indent
  rw [(isTyped_ofRun entry target headers diagnostics).readsBack_iff]
  intro text member
  obtain ⟨s, rfl⟩ := text_of_run member
  exact (JsonText.joined_eq_self_iff _).mp (JsonText.joined_ofString s)

/-- The halves of a pair are read back in the other order. -/
theorem halves_serialized :
    let report : Report := { entry := .text [.half 1024, .half 0], target := .string "x86-64" }
    report.IsTyped ∧ ∀ indent, report.ReadsBack indent := by
  intro report
  have typed : report.IsTyped := ⟨⟨_, rfl⟩, ⟨_, rfl⟩, nofun, nofun⟩
  refine ⟨typed, fun indent => (survives_serialization.2 report typed indent).mpr ?_⟩
  intro text member
  rw [← JsonText.joined_eq_self_iff]
  simp only [report, parts, List.flatMap_nil, List.append_nil, List.mem_cons, List.not_mem_nil,
    or_false] at member
  rcases member with same | same <;> cases same <;> decide

/-- Two halves that make up a pair are not read back. -/
theorem pair_of_halves_not_read_back :
    ¬∀ r : Report, r.IsTyped → ∀ indent, r.ReadsBack indent := by
  intro all
  let report : Report := { entry := .text [.half 0, .half 1024], target := .string "x86-64" }
  have typed : report.IsTyped := ⟨⟨_, rfl⟩, ⟨_, rfl⟩, nofun, nofun⟩
  have whole := (typed.readsBack_iff none).mp (all report typed none)
  exact whole [.half 0, .half 1024] List.mem_cons_self ⟨[], 0, 1024, [], rfl, by decide⟩

end Report

end CBindings
