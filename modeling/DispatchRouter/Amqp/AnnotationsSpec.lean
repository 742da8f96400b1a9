/-
# What `qd_parse_annotations` reads

A message-annotations map is a list of key/value pairs of encoded values. When
every user annotation comes before every router annotation, the order the
router itself writes them in, the key loop stays aligned: each round reads a
key at an even position and steps over the value after it. Then
`qd_parse_annotations` fails exactly when a router annotation's value has the
wrong type, and otherwise reports the user annotations as the octets and count
of the pairs before the first router key, and fills each out-parameter with the
last value given for it.

Out of that order the loop falls out of step: once a router key has cleared
`user_anno`, a key that names no router annotation is neither stepped over nor
counted, and its value is read as the next key.
-/

import DispatchRouter.Amqp.Annotations
import DispatchRouter.Amqp.Grammar

namespace DispatchRouter.Amqp

/-! ### Router annotations -/

/-- The out-parameters a router annotation is parsed into. -/
inductive MaField
  | toOverride
  | trace
  | phase
  | stream
  | ingress
  deriving DecidableEq, Repr

/-- A router annotation key: one whose value is skipped (`x-opt-qd.` and
`x-opt-qd.class`), or one whose value is parsed into an out-parameter. -/
inductive RouterKey
  | bare
  | messageClass
  | field (which : MaField)
  deriving DecidableEq, Repr

/-- The router annotation a key's text names. -/
def routerKeyOfName (name : List UInt8) : Option RouterKey :=
  if name = qdMaPrefix then some .bare
  else if name = qdMaTo then some (.field .toOverride)
  else if name = qdMaTrace then some (.field .trace)
  else if name = qdMaPhase then some (.field .phase)
  else if name = qdMaClass then some .messageClass
  else if name = qdMaStream then some (.field .stream)
  else if name = qdMaIngress then some (.field .ingress)
  else none

/-- The router annotation a key names: a symbol whose text is a router key's.
Every other key is a user annotation. -/
def routerKeyOf : Encoding → Option RouterKey
  | .sized tag name => if tag = Tag.sym8 ∨ tag = Tag.sym32 then routerKeyOfName name else none
  | _ => none

/-- An out-parameter. -/
def outField : MaField → MaFields → Option ParsedField
  | .toOverride, out => out.toOverride
  | .trace, out => out.trace
  | .phase, out => out.phase
  | .stream, out => out.stream
  | .ingress, out => out.ingress

/-- A parsed value written to an out-parameter. -/
def storeField : MaField → ParsedField → MaFields → MaFields
  | .toOverride, field, out => { out with toOverride := some field }
  | .trace, field, out => { out with trace := some field }
  | .phase, field, out => { out with phase := some field }
  | .stream, field, out => { out with stream := some field }
  | .ingress, field, out => { out with ingress := some field }

/-- The test `qd_parse_annotations` makes of a value it parsed into an out-parameter. -/
def fieldCheck : MaField → ParsedField → Option String
  | .toOverride => stringCheck "to-override not a valid string type"
  | .trace => traceCheck
  | .phase => fun _ => none
  | .stream => fun _ => none
  | .ingress => stringCheck "ingress router not a string type"

/-- The branch of the switch a router key takes. -/
def routerBranch (strip : Bool) : RouterKey → AnnotationScan → KeyOutcome
  | .bare, scan => skipValue scan
  | .messageClass, scan => skipValue scan
  | .field which, scan => routerValue strip scan (storeField which) (fieldCheck which)

theorem outField_storeField (which which' : MaField) (field : ParsedField) (out : MaFields) :
    outField which (storeField which' field out) = if which' = which then some field else outField which out := by
  cases which <;> cases which' <;> rfl

/-! ### The answer expected -/

/-- The elements of a map of key/value pairs. -/
def pairElements (pairs : List (Encoding × Encoding)) : List Encoding :=
  pairs.flatMap fun pair => [pair.1, pair.2]

/-- The last value the pairs give the out-parameter `which`. -/
def lastValue (which : MaField) : List (Encoding × Encoding) → Option Encoding
  | [] => none
  | (key, value) :: more =>
      (lastValue which more).or (if routerKeyOf key = some (.field which) then some value else none)

/-- A UTF-8 string's type code. -/
def utf8Tag (tag : UInt8) : Bool := tag == Tag.str8Utf8 || tag == Tag.str32Utf8

/-- A list's type code. -/
def listTag (tag : UInt8) : Bool := tag == Tag.list8 || tag == Tag.list32 || tag == Tag.list0

/-- The elements of a compound value; a scalar has none. -/
def Encoding.elementsOf : Encoding → List Encoding
  | .compound _ elements => elements
  | _ => []

/-- A value of the type an out-parameter wants: a string for the to-override
and the ingress router, a list of strings for the trace, anything else for the
phase and the stream. -/
def valueFits : MaField → Encoding → Bool
  | .toOverride, value => utf8Tag value.header.tag
  | .trace, value =>
      listTag value.header.tag && value.elementsOf.all fun element => utf8Tag element.header.tag
  | .phase, _ => true
  | .stream, _ => true
  | .ingress, value => utf8Tag value.header.tag

/-- Every router annotation's value has the type its out-parameter wants. -/
def routersFit (pairs : List (Encoding × Encoding)) : Bool :=
  pairs.all fun pair =>
    match routerKeyOf pair.1 with
    | some (.field which) => valueFits which pair.2
    | _ => true

/-- After router annotations, an out-parameter holds the parse of the last
value given for it, or what it held before when none was. -/
def FieldAfter : Option Encoding → Option ParsedField → Option ParsedField → Prop
  | some value, _, after => ∃ field, after = some field ∧ Spans value field
  | none, before, after => after = before

/-! ### Octets of keys and values -/

@[simp] theorem pairElements_nil : pairElements [] = [] := rfl

@[simp] theorem pairElements_cons (key value : Encoding) (more : List (Encoding × Encoding)) :
    pairElements ((key, value) :: more) = key :: value :: pairElements more := rfl

theorem pairElements_append (front back : List (Encoding × Encoding)) :
    pairElements (front ++ back) = pairElements front ++ pairElements back :=
  List.flatMap_append

theorem length_pairElements (pairs : List (Encoding × Encoding)) :
    (pairElements pairs).length = 2 * pairs.length := by
  induction pairs with
  | nil => rfl
  | cons pair more ih =>
      rw [show pair :: more = (pair.1, pair.2) :: more from rfl, pairElements_cons]
      simp only [List.length_cons, ih]
      omega

/-- The length `qd_parse_annotations` counts for a key or value, from its
constructor, size field and size, is its length. -/
theorem annotationLength_octets (value : Encoding) (wf : value.wellFormed = true) :
    1 + tagGetSizeLength value.header.tag + value.header.size.toNat = value.octets.length := by
  cases value with
  | fixed tag content =>
      simp only [Encoding.wellFormed, Bool.and_eq_true, decide_eq_true_eq, beq_iff_eq] at wf
      obtain ⟨⟨-, high⟩, length⟩ := wf
      have width : fixedWidth tag < 2 ^ 32 := by
        unfold fixedWidth
        split <;> decide
      simp only [Encoding.header, Encoding.octets, tagGetSizeLength_eq, if_pos high,
        toNat_ofNat_of_lt width, List.length_cons, length]
      omega
  | sized tag content =>
      simp only [Encoding.wellFormed, Bool.and_eq_true, Bool.or_eq_true, beq_iff_eq,
        decide_eq_true_eq] at wf
      obtain ⟨kind, fits⟩ := wf
      simp only [Encoding.header, Encoding.octets, tagGetSizeLength_eq, if_neg (show ¬nibble tag < 10 by omega),
        toNat_ofNat_of_lt (Nat.lt_of_lt_of_le fits (pow_fieldWidth_le tag)), List.length_cons,
        List.length_append, length_lengthField]
      omega
  | compound tag elements =>
      simp only [Encoding.wellFormed, Bool.and_eq_true, Bool.or_eq_true, beq_iff_eq,
        decide_eq_true_eq] at wf
      obtain ⟨⟨⟨⟨kind, size⟩, -⟩, -⟩, -⟩ := wf
      simp only [Encoding.header, Encoding.octets, tagGetSizeLength_eq,
        if_neg (show ¬nibble tag < 10 by omega),
        toNat_ofNat_of_lt (Nat.lt_of_lt_of_le size (pow_fieldWidth_le tag)), List.length_cons,
        List.length_append, length_lengthField]
      omega

/-! ### The switch -/

/-- `qd_buffer_field_equal` on a field as long as the text is equality. -/
theorem qdBufferFieldEqual_of_length {name data : List UInt8} (same : name.length = data.length) :
    qdBufferFieldEqual name data = decide (name = data) := by
  rw [Bool.eq_iff_iff, qdBufferFieldEqual, List.isPrefixOf_iff_prefix, decide_eq_true_iff]
  exact ⟨fun isPrefix => (isPrefix.eq_of_length same.symm).symm, fun equal => equal ▸ List.prefix_refl _⟩

theorem qdBufferFieldEqual_false {name data : List UInt8} (differ : name ≠ data)
    (same : name.length = data.length) : qdBufferFieldEqual name data = false := by
  rw [qdBufferFieldEqual_of_length same, decide_eq_false_iff_not]
  exact differ

/-- A symbol that names no router annotation takes no branch of the switch,
whatever its length. -/
theorem routerKey_of_unnamed (strip : Bool) {name : List UInt8} (unnamed : routerKeyOfName name = none)
    (scan : AnnotationScan) : routerKey strip name scan = .next scan := by
  simp only [routerKeyOfName] at unnamed
  split_ifs at unnamed with isPrefix isTo isTrace isPhase isClass isStream isIngress
  unfold routerKey
  split
  next length =>
    simp only [qdBufferFieldEqual_false isPrefix (by rw [length]; rfl), Bool.false_eq_true, if_false]
  next length =>
    simp only [qdBufferFieldEqual_false isTo (by rw [length]; rfl), Bool.false_eq_true, if_false]
  next length =>
    simp only [qdBufferFieldEqual_false isTrace (by rw [length]; rfl),
      qdBufferFieldEqual_false isPhase (by rw [length]; rfl),
      qdBufferFieldEqual_false isClass (by rw [length]; rfl), Bool.false_eq_true, if_false]
  next length =>
    simp only [qdBufferFieldEqual_false isStream (by rw [length]; rfl), Bool.false_eq_true, if_false]
  next length =>
    simp only [qdBufferFieldEqual_false isIngress (by rw [length]; rfl), Bool.false_eq_true, if_false]
  next => rfl

/-- A symbol that names a router annotation takes its branch, with the flag cleared. -/
theorem routerKey_of_named (strip : Bool) {name : List UInt8} {kind : RouterKey}
    (named : routerKeyOfName name = some kind) (scan : AnnotationScan) :
    routerKey strip name scan = routerBranch strip kind { scan with userAnno := false } := by
  simp only [routerKeyOfName] at named
  split_ifs at named <;> (cases named; subst name; rfl)

/-- A well-formed value skipped with `parse_amqp_field`. -/
theorem skipValue_octets {value : Encoding} (wf : value.wellFormed = true) (more : List UInt8)
    {scan : AnnotationScan} (fields : scan.maFields = value.octets ++ more) :
    skipValue scan = .next { scan with maFields := more } := by
  simp only [skipValue, fields, parseAmqpField_octets value wf more]

/-- A well-formed value parsed into an out-parameter: the parse is the value,
and what follows is the check. -/
theorem routerValue_octets {value : Encoding} (wf : value.wellFormed = true) (more : List UInt8)
    {scan : AnnotationScan} (fields : scan.maFields = value.octets ++ more)
    (store : ParsedField → MaFields → MaFields) (check : ParsedField → Option String) :
    routerValue false scan store check =
      match check (qdParseInternal (value.octets ++ more)) with
      | some error =>
          .fail error { scan with maFields := more, out := store (qdParseInternal (value.octets ++ more)) scan.out }
      | none => .next { scan with maFields := more, out := store (qdParseInternal (value.octets ++ more)) scan.out } := by
  have ok := (qdParseInternal_octets value more wf).ok
  -- split on the check, so that the source's match and the statement's both reduce
  cases checked : check (qdParseInternal (value.octets ++ more)) <;>
    simp only [routerValue, Bool.false_eq_true, if_false, fields, ok, parseAmqpField_octets value wf more,
      checked]

/-- The checks of the out-parameters, on the parse of a well-formed value, pass
exactly for a value of the type wanted. -/
theorem SpansAll.all_tag {elements : List Encoding} {fields : List ParsedField}
    (spans : SpansAll elements fields) (test : UInt8 → Bool) :
    fields.all (fun field => test field.amqp.tag) = elements.all fun element => test element.header.tag := by
  induction elements generalizing fields with
  | nil =>
      cases fields with
      | nil => rfl
      | cons field more => exact spans.elim
  | cons element more ih =>
      cases fields with
      | nil => exact spans.elim
      | cons field others =>
          simp only [List.all_cons, spans.1.amqp, ih spans.2]

theorem Spans.children_all {value : Encoding} {field : ParsedField} (spans : Spans value field)
    (test : UInt8 → Bool) :
    field.children.all (fun child => test child.amqp.tag) = value.elementsOf.all fun element => test element.header.tag := by
  cases value with
  | fixed tag content => rw [spans.2.2.2]; rfl
  | sized tag content => rw [spans.2.2.2]; rfl
  | compound tag elements => exact spans.2.2.2.all_tag test

theorem fieldCheck_eq_none_iff (which : MaField) {value : Encoding} {field : ParsedField}
    (spans : Spans value field) : fieldCheck which field = none ↔ valueFits which value = true := by
  have tag := spans.amqp
  cases which with
  | toOverride | ingress =>
      have string : qdParseIsString field = utf8Tag value.header.tag := by
        rw [qdParseIsString, tag]
        rfl
      simp only [fieldCheck, valueFits, stringCheck, string]
      cases utf8Tag value.header.tag <;> simp
  | trace =>
      have list : qdParseIsList field = listTag value.header.tag := by
        rw [qdParseIsList, tag]
        rfl
      have strings : field.children.all qdParseIsString =
          value.elementsOf.all fun element => utf8Tag element.header.tag :=
        spans.children_all utf8Tag
      simp only [fieldCheck, valueFits, traceCheck, list, strings]
      cases listTag value.header.tag <;> cases (value.elementsOf.all fun element => utf8Tag element.header.tag) <;>
        simp
  | phase | stream => simp only [fieldCheck, valueFits]

/-! ### One round of the key loop -/

/-- A round reads a well-formed key and stops right after it. -/
theorem keyRound_octets (strip : Bool) {key : Encoding} (wf : key.wellFormed = true) (after : List UInt8)
    {scan : AnnotationScan} (fields : scan.maFields = key.octets ++ after) :
    keyRound strip scan =
      match (if key.header.tag = Tag.sym8 ∨ key.header.tag = Tag.sym32 then
          routerKey strip key.header.value { scan with maFields := after }
        else .next { scan with maFields := after }) with
      | .next scan => afterKey strip key.header scan
      | outcome => outcome := by
  unfold keyRound
  rewrite [fields, parseAmqpField_octets key wf after]
  rfl

/-- A symbol among the well-formed values is a variable-width one. -/
theorem sized_of_symbol {key : Encoding} (wf : key.wellFormed = true)
    (symbol : key.header.tag = Tag.sym8 ∨ key.header.tag = Tag.sym32) :
    ∃ name, key = .sized key.header.tag name ∧ key.header.value = name := by
  cases key with
  | sized tag name => exact ⟨name, rfl, rfl⟩
  | fixed tag content =>
      simp only [Encoding.wellFormed, Bool.and_eq_true, decide_eq_true_eq] at wf
      rcases symbol with same | same <;> (simp only [Encoding.header] at same; subst same) <;>
        exact absurd wf.1.2 (by decide)
  | compound tag elements =>
      simp only [Encoding.wellFormed, Bool.and_eq_true, Bool.or_eq_true, beq_iff_eq] at wf
      rcases symbol with same | same <;> (simp only [Encoding.header] at same; subst same) <;>
        exact absurd wf.1.1.1.1 (by decide)

/-- The switch leaves a key that names no router annotation alone. -/
theorem switch_of_unnamed (strip : Bool) {key : Encoding} (wf : key.wellFormed = true)
    (unnamed : routerKeyOf key = none) (scan : AnnotationScan) :
    (if key.header.tag = Tag.sym8 ∨ key.header.tag = Tag.sym32 then routerKey strip key.header.value scan
      else .next scan) = .next scan := by
  split
  · rename_i symbol
    obtain ⟨name, shape, value⟩ := sized_of_symbol wf symbol
    rw [shape] at unnamed
    simp only [routerKeyOf, symbol, if_true] at unnamed
    rw [value, routerKey_of_unnamed strip unnamed]
  · rfl

/-- The switch sends a router key to its branch, with the flag cleared. -/
theorem switch_of_named (strip : Bool) {key : Encoding} (wf : key.wellFormed = true) {kind : RouterKey}
    (named : routerKeyOf key = some kind) (scan : AnnotationScan) :
    (if key.header.tag = Tag.sym8 ∨ key.header.tag = Tag.sym32 then routerKey strip key.header.value scan
      else .next scan) = routerBranch strip kind { scan with userAnno := false } := by
  cases key with
  | sized tag name =>
      simp only [routerKeyOf] at named
      split_ifs at named with symbol
      simp only [Encoding.header, symbol, if_true]
      exact routerKey_of_named strip named scan
  | fixed tag content => simp [routerKeyOf] at named
  | compound tag elements => simp [routerKeyOf] at named

/-- A user annotation while the flag is set: its value is stepped over, and
both are counted. -/
theorem keyRound_user {key value : Encoding} (wfKey : key.wellFormed = true)
    (wfValue : value.wellFormed = true) (unnamed : routerKeyOf key = none) (more : List UInt8)
    {scan : AnnotationScan} (user : scan.userAnno = true)
    (fields : scan.maFields = key.octets ++ (value.octets ++ more)) :
    keyRound false scan =
      .next { scan with
        maFields := more
        userAnnosSize := scan.userAnnosSize + (key.octets.length + value.octets.length)
        userAnnosCount := scan.userAnnosCount + 2 } := by
  rw [keyRound_octets false wfKey _ fields, switch_of_unnamed false wfKey unnamed]
  simp only [afterKey, user, if_true, parseAmqpField_octets value wfValue more,
    annotationLength_octets key wfKey, annotationLength_octets value wfValue]

/-- Once the flag is cleared, a key that names no router annotation takes
neither branch: the loop goes on from right after the key, and reads its value
as the next key. -/
theorem keyRound_unnamed_routed {key : Encoding} (wf : key.wellFormed = true)
    (unnamed : routerKeyOf key = none) (after : List UInt8) {scan : AnnotationScan}
    (routed : scan.userAnno = false) (fields : scan.maFields = key.octets ++ after) :
    keyRound false scan = .next { scan with maFields := after } := by
  rw [keyRound_octets false wf after fields, switch_of_unnamed false wf unnamed]
  simp only [afterKey, routed, Bool.false_eq_true, if_false]

/-- A router key whose value is skipped. -/
theorem keyRound_skipped {key value : Encoding} (wfKey : key.wellFormed = true)
    (wfValue : value.wellFormed = true) {kind : RouterKey} (named : routerKeyOf key = some kind)
    (skipped : kind = .bare ∨ kind = .messageClass) (more : List UInt8) {scan : AnnotationScan}
    (fields : scan.maFields = key.octets ++ (value.octets ++ more)) :
    keyRound false scan = .next { scan with maFields := more, userAnno := false } := by
  rw [keyRound_octets false wfKey _ fields, switch_of_named false wfKey named]
  have skip : routerBranch false kind { scan with maFields := value.octets ++ more, userAnno := false } =
      .next { scan with maFields := more, userAnno := false } := by
    rcases skipped with rfl | rfl <;> exact skipValue_octets wfValue more rfl
  simp only [skip, afterKey, Bool.false_eq_true, if_false]

/-- A router key whose value is parsed into the out-parameter `which`: the loop
goes on unless the check of the parse fails. -/
theorem keyRound_field {key value : Encoding} (wfKey : key.wellFormed = true)
    (wfValue : value.wellFormed = true) {which : MaField} (named : routerKeyOf key = some (.field which))
    (more : List UInt8) {scan : AnnotationScan}
    (fields : scan.maFields = key.octets ++ (value.octets ++ more)) :
    keyRound false scan =
      match fieldCheck which (qdParseInternal (value.octets ++ more)) with
      | some error =>
          .fail error { scan with
            maFields := more
            userAnno := false
            out := storeField which (qdParseInternal (value.octets ++ more)) scan.out }
      | none =>
          .next { scan with
            maFields := more
            userAnno := false
            out := storeField which (qdParseInternal (value.octets ++ more)) scan.out } := by
  rw [keyRound_octets false wfKey _ fields, switch_of_named false wfKey named, routerBranch,
    routerValue_octets wfValue more rfl]
  -- the router branch always clears the flag, so `afterKey` lets it through
  cases fieldCheck which (qdParseInternal (value.octets ++ more)) <;> rfl

/-! ### Runs of the key loop -/

theorem uint32_ofNat_two_mul_succ (count : UInt32) (pairs : Nat) :
    count + 2 + UInt32.ofNat (2 * pairs) = count + UInt32.ofNat (2 * (pairs + 1)) := by
  rw [Nat.mul_succ, UInt32.ofNat_add, UInt32.add_assoc, UInt32.add_comm 2]
  rfl

/-- Over user annotations, with the flag still set, no round fails: each steps
over a key and its value and counts both. -/
theorem keyLoop_users (users : List (Encoding × Encoding))
    (wf : ∀ pair ∈ users, pair.1.wellFormed = true ∧ pair.2.wellFormed = true)
    (unnamed : ∀ pair ∈ users, routerKeyOf pair.1 = none) (count : Nat) (more : List UInt8)
    (scan : AnnotationScan) (user : scan.userAnno = true)
    (fields : scan.maFields = Encoding.octetsAll (pairElements users) ++ more) :
    keyLoop false (users.length + count) scan =
      keyLoop false count { scan with
        maFields := more
        userAnnosSize := scan.userAnnosSize + (Encoding.octetsAll (pairElements users)).length
        userAnnosCount := scan.userAnnosCount + UInt32.ofNat (2 * users.length) } := by
  induction users generalizing scan with
  | nil =>
      simp only [pairElements_nil, Encoding.octetsAll_nil, List.nil_append] at fields
      simp only [List.length_nil, Nat.zero_add, pairElements_nil, Encoding.octetsAll_nil, Nat.add_zero,
        Nat.mul_zero, show UInt32.ofNat 0 = 0 from rfl, UInt32.add_zero, ← fields]
  | cons pair others ih =>
      obtain ⟨key, value⟩ := pair
      have wfHead := wf (key, value) List.mem_cons_self
      have round := keyRound_user wfHead.1 wfHead.2 (unnamed (key, value) List.mem_cons_self)
        (Encoding.octetsAll (pairElements others) ++ more) user
        (by rw [fields, pairElements_cons, Encoding.octetsAll_cons, Encoding.octetsAll_cons,
          List.append_assoc, List.append_assoc])
      rw [List.length_cons, Nat.add_right_comm, keyLoop, round]
      dsimp only
      refine (ih (fun pair member => wf pair (List.mem_cons_of_mem _ member))
        (fun pair member => unnamed pair (List.mem_cons_of_mem _ member)) _ ?_ ?_).trans ?_
      · exact user
      · rfl
      · simp only [pairElements_cons, Encoding.octetsAll_cons, List.length_append,
          uint32_ofNat_two_mul_succ]
        congr 2
        omega

/-- Over router annotations the loop fails exactly when a value has the wrong
type, and otherwise leaves each out-parameter with the parse of the last value
given for it. -/
theorem keyLoop_routers (routers : List (Encoding × Encoding))
    (wf : ∀ pair ∈ routers, pair.1.wellFormed = true ∧ pair.2.wellFormed = true)
    (named : ∀ pair ∈ routers, (routerKeyOf pair.1).isSome = true) (more : List UInt8)
    (scan : AnnotationScan) (fields : scan.maFields = Encoding.octetsAll (pairElements routers) ++ more) :
    ((keyLoop false routers.length scan).1 = none ↔ routersFit routers = true) ∧
      ((keyLoop false routers.length scan).1 = none →
        (keyLoop false routers.length scan).2.userAnnosSize = scan.userAnnosSize ∧
        (keyLoop false routers.length scan).2.userAnnosCount = scan.userAnnosCount ∧
        ∀ which, FieldAfter (lastValue which routers) (outField which scan.out)
          (outField which (keyLoop false routers.length scan).2.out)) := by
  induction routers generalizing scan with
  | nil =>
      simp only [List.length_nil, keyLoop, routersFit, List.all_nil, lastValue, FieldAfter, and_self,
        implies_true]
  | cons pair others ih =>
      obtain ⟨key, value⟩ := pair
      have wfHead := wf (key, value) List.mem_cons_self
      have wfOthers := fun pair member => wf pair (List.mem_cons_of_mem (key, value) member)
      have namedOthers := fun pair member => named pair (List.mem_cons_of_mem (key, value) member)
      have headFields : scan.maFields = key.octets ++
          (value.octets ++ (Encoding.octetsAll (pairElements others) ++ more)) := by
        rw [fields, pairElements_cons, Encoding.octetsAll_cons, Encoding.octetsAll_cons,
          List.append_assoc, List.append_assoc]
      obtain ⟨kind, kindOf⟩ := Option.isSome_iff_exists.mp (named (key, value) List.mem_cons_self)
      rw [List.length_cons, keyLoop]
      cases kind with
      | bare | messageClass =>
          -- a skipped annotation changes nothing the run is about
          rw [keyRound_skipped wfHead.1 wfHead.2 kindOf (by simp) _ headFields]
          dsimp only
          have next := ih wfOthers namedOthers
            { scan with maFields := Encoding.octetsAll (pairElements others) ++ more, userAnno := false } rfl
          simp only [routersFit, List.all_cons, kindOf, Bool.true_and, lastValue, Option.some.injEq,
            reduceCtorEq, ↓reduceIte, Option.or_none] at next ⊢
          exact next
      | field which₀ =>
          have spans := qdParseInternal_octets value (Encoding.octetsAll (pairElements others) ++ more)
            wfHead.2
          rw [keyRound_field wfHead.1 wfHead.2 kindOf _ headFields]
          have fits := fieldCheck_eq_none_iff which₀ spans
          cases check : fieldCheck which₀ (qdParseInternal (value.octets ++
              (Encoding.octetsAll (pairElements others) ++ more))) with
          | some error =>
              -- the round fails, on a value of the wrong type
              have wrong : valueFits which₀ value = false := by
                rw [check] at fits
                simpa using fits
              simp [routersFit, kindOf, wrong]
          | none =>
              have right : valueFits which₀ value = true := fits.mp check
              dsimp only
              have next := ih wfOthers namedOthers
                { scan with
                  maFields := Encoding.octetsAll (pairElements others) ++ more
                  userAnno := false
                  out := storeField which₀ (qdParseInternal (value.octets ++
                    (Encoding.octetsAll (pairElements others) ++ more))) scan.out } rfl
              simp only [routersFit, List.all_cons, kindOf, right, Bool.true_and] at next ⊢
              refine ⟨next.1, fun ok => ⟨(next.2 ok).1, (next.2 ok).2.1, fun which => ?_⟩⟩
              have after := (next.2 ok).2.2 which
              rw [outField_storeField] at after
              simp only [lastValue, kindOf, Option.some.injEq, RouterKey.field.injEq]
              -- a later value for `which` wins; otherwise this one, if it is for `which`
              cases later : lastValue which others with
              | some latest =>
                  rw [later] at after
                  simp only [Option.some_or, FieldAfter] at after ⊢
                  exact after
              | none =>
                  rw [later] at after
                  by_cases same : which₀ = which
                  · subst same
                    simp only [if_true, FieldAfter, Option.none_or] at after ⊢
                    exact ⟨_, after, spans⟩
                  · simp only [same, if_false, FieldAfter, Option.none_or] at after ⊢
                    exact after

/-! ### `qd_parse_annotations` -/

/-- The map of a message-annotations section that holds the pairs, in order. -/
def annotationsMap (tag : UInt8) (pairs : List (Encoding × Encoding)) : Encoding :=
  .compound tag (pairElements pairs)

theorem wellFormed_of_mem_pairs {pairs : List (Encoding × Encoding)}
    (wf : Encoding.wellFormedAll (pairElements pairs) = true) :
    ∀ pair ∈ pairs, pair.1.wellFormed = true ∧ pair.2.wellFormed = true := by
  intro pair member
  have each := (Encoding.wellFormedAll_iff _).mp wf
  have first : pair.1 ∈ pairElements pairs := List.mem_flatMap.mpr ⟨pair, member, List.mem_cons_self⟩
  have second : pair.2 ∈ pairElements pairs :=
    List.mem_flatMap.mpr ⟨pair, member, List.mem_cons_of_mem _ List.mem_cons_self⟩
  exact ⟨each _ first, each _ second⟩

/-- A well-formed map reaches the key loop, over half its elements, from the
start of its value; an empty one returns at once, with what the loop would
have left. -/
theorem qdParseAnnotations_map (strip : Bool) {tag : UInt8} (isMap : tag = Tag.map8 ∨ tag = Tag.map32)
    {elements : List Encoding} (wf : (Encoding.compound tag elements).wellFormed = true)
    (rest : List UInt8) :
    qdParseAnnotations strip (some ((Encoding.compound tag elements).octets ++ rest)) =
      finishAnnotations (Encoding.octetsAll elements)
        (keyLoop strip (elements.length / 2) ⟨Encoding.octetsAll elements, true, 0, 0, {}⟩) := by
  have read := parseAmqpField_octets _ wf rest
  simp only [Encoding.wellFormed, Bool.and_eq_true, Bool.or_eq_true, beq_iff_eq, decide_eq_true_eq,
    Bool.not_eq_true', Bool.or_eq_false_iff] at wf
  obtain ⟨⟨⟨⟨-, -⟩, fewer⟩, maps⟩, -⟩ := wf
  have even : elements.length % 2 = 0 := maps.resolve_left fun notMap => by
    rcases isMap with same | same <;> simp [same] at notMap
  have count : (UInt32.ofNat elements.length).toNat = elements.length :=
    toNat_ofNat_of_lt (Nat.lt_of_lt_of_le fewer (pow_fieldWidth_le tag))
  simp only [qdParseAnnotations, read, Encoding.header, isMap, not_true_eq_false, if_false,
    even_count _ even, ne_eq, not_true_eq_false, count]
  by_cases empty : elements = []
  · subst empty
    rfl
  · have nonzero : UInt32.ofNat elements.length ≠ 0 := by
      intro zero
      have length : elements.length = 0 := by simpa [count] using congrArg UInt32.toNat zero
      exact empty (List.eq_nil_of_length_eq_zero length)
    simp only [nonzero, if_false]

/-- `qd_parse_annotations` on a map whose user annotations all come before its
router annotations: it fails exactly when a router annotation's value has the
wrong type; otherwise it counts the user keys and values, views their octets as
the user annotations, and leaves each out-parameter with the parse of the last
value given for it. -/
theorem qd_parse_annotations_aligned (users routers : List (Encoding × Encoding)) {tag : UInt8}
    (isMap : tag = Tag.map8 ∨ tag = Tag.map32)
    (wf : (annotationsMap tag (users ++ routers)).wellFormed = true)
    (unnamed : ∀ pair ∈ users, routerKeyOf pair.1 = none)
    (named : ∀ pair ∈ routers, (routerKeyOf pair.1).isSome = true) (rest : List UInt8) :
    ((qdParseAnnotations false (some ((annotationsMap tag (users ++ routers)).octets ++ rest))).1 = none ↔
        routersFit routers = true) ∧
      ((qdParseAnnotations false (some ((annotationsMap tag (users ++ routers)).octets ++ rest))).1 = none →
        (qdParseAnnotations false (some ((annotationsMap tag (users ++ routers)).octets ++ rest))).2.userCount =
            UInt32.ofNat (2 * users.length) ∧
          (qdParseAnnotations false (some ((annotationsMap tag (users ++ routers)).octets ++ rest))).2.userAnnotations =
            Encoding.octetsAll (pairElements users) ∧
          ∀ which, FieldAfter (lastValue which routers) none
            (outField which (qdParseAnnotations false
              (some ((annotationsMap tag (users ++ routers)).octets ++ rest))).2)) := by
  have wfPairs : ∀ pair ∈ users ++ routers, pair.1.wellFormed = true ∧ pair.2.wellFormed = true := by
    simp only [annotationsMap, Encoding.wellFormed, Bool.and_eq_true] at wf
    exact wellFormed_of_mem_pairs wf.2
  have halves : (pairElements (users ++ routers)).length / 2 = users.length + routers.length := by
    rw [length_pairElements, List.length_append]
    omega
  -- the user annotations first: every round steps over a pair and counts it
  have users_run := keyLoop_users users (fun pair member => wfPairs pair (List.mem_append_left _ member))
    unnamed routers.length (Encoding.octetsAll (pairElements routers))
    ⟨Encoding.octetsAll (pairElements (users ++ routers)), true, 0, 0, {}⟩ rfl
    (by rw [pairElements_append, Encoding.octetsAll_append])
  rw [annotationsMap, qdParseAnnotations_map false isMap wf rest, halves, users_run]
  -- then the router annotations, from where the user annotations end
  obtain ⟨fit, done⟩ := keyLoop_routers routers
    (fun pair member => wfPairs pair (List.mem_append_right _ member)) named []
    { maFields := Encoding.octetsAll (pairElements routers), userAnno := true,
      userAnnosSize := 0 + (Encoding.octetsAll (pairElements users)).length,
      userAnnosCount := 0 + UInt32.ofNat (2 * users.length), out := {} }
    (List.append_nil _).symm
  generalize keyLoop false routers.length _ = result at fit done ⊢
  obtain ⟨error, final⟩ := result
  cases error with
  | some error =>
      simp only [finishAnnotations, reduceCtorEq, false_iff, IsEmpty.forall_iff, and_true] at fit ⊢
      exact fit
  | none =>
      obtain ⟨size, count, fields⟩ := done rfl
      simp only [finishAnnotations, true_iff, forall_const] at fit ⊢
      refine ⟨fit, ?_, ?_, fun which => ?_⟩
      · rw [count]
        exact UInt32.zero_add _
      · rw [size, Nat.zero_add, pairElements_append, Encoding.octetsAll_append, List.take_left]
      · -- the out-parameters start empty and the user annotations are set apart from them
        cases which <;> exact fields _

/-- A user annotation `k` of `v` before a to-override `a`. -/
theorem qd_parse_annotations_aligned_to :
    (Tag.map8 = Tag.map8 ∨ Tag.map8 = Tag.map32) ∧
      (annotationsMap Tag.map8 ([(.sized Tag.sym8 [107], .sized Tag.str8Utf8 [118])] ++
        [(.sized Tag.sym8 qdMaTo, .sized Tag.str8Utf8 [97])])).wellFormed = true ∧
      (∀ pair ∈ [((Encoding.sized Tag.sym8 [107]), (Encoding.sized Tag.str8Utf8 [118]))],
        routerKeyOf pair.1 = none) ∧
      (∀ pair ∈ [((Encoding.sized Tag.sym8 qdMaTo), (Encoding.sized Tag.str8Utf8 [97]))],
        (routerKeyOf pair.1).isSome = true) ∧
      ((qdParseAnnotations false (some ((annotationsMap Tag.map8 ([(.sized Tag.sym8 [107], .sized Tag.str8Utf8 [118])] ++
          [(.sized Tag.sym8 qdMaTo, .sized Tag.str8Utf8 [97])])).octets ++ []))).1 = none ↔
        routersFit [(.sized Tag.sym8 qdMaTo, .sized Tag.str8Utf8 [97])] = true) :=
  ⟨Or.inl rfl, by decide, by decide, by decide,
    (qd_parse_annotations_aligned [(.sized Tag.sym8 [107], .sized Tag.str8Utf8 [118])]
      [(.sized Tag.sym8 qdMaTo, .sized Tag.str8Utf8 [97])] (Or.inl rfl) (by decide) (by decide) (by decide) []).1⟩

/-- The to-override `a` is followed by a user annotation `k` whose value is the
symbol `x-opt-qd.to`, then by a user annotation `x` of `b`. The first key clears
the flag; `k` then takes neither branch, so its value is read as a key, and the
key `x` of the last pair is taken for the to-override. No error is returned, and
no user annotation is counted. -/
theorem qd_parse_annotations_misaligned :
    (qdParseAnnotations false (some (annotationsMap Tag.map8 [(.sized Tag.sym8 qdMaTo, .sized Tag.str8Utf8 [97]),
        (.sized Tag.sym8 [107], .sized Tag.sym8 qdMaTo),
        (.sized Tag.str8Utf8 [120], .sized Tag.str8Utf8 [98])]).octets)).1 = none ∧
      (qdParseAnnotations false (some (annotationsMap Tag.map8 [(.sized Tag.sym8 qdMaTo, .sized Tag.str8Utf8 [97]),
        (.sized Tag.sym8 [107], .sized Tag.sym8 qdMaTo),
        (.sized Tag.str8Utf8 [120], .sized Tag.str8Utf8 [98])]).octets)).2.toOverride.map ParsedField.fullField =
        some [Tag.str8Utf8, 1, 120] ∧
      (qdParseAnnotations false (some (annotationsMap Tag.map8 [(.sized Tag.sym8 qdMaTo, .sized Tag.str8Utf8 [97]),
        (.sized Tag.sym8 [107], .sized Tag.sym8 qdMaTo),
        (.sized Tag.str8Utf8 [120], .sized Tag.str8Utf8 [98])]).octets)).2.userCount = 0 := by
  have start := qdParseAnnotations_map false (Or.inl rfl)
    (show (annotationsMap Tag.map8 [(.sized Tag.sym8 qdMaTo, .sized Tag.str8Utf8 [97]),
      (.sized Tag.sym8 [107], .sized Tag.sym8 qdMaTo),
      (.sized Tag.str8Utf8 [120], .sized Tag.str8Utf8 [98])]).wellFormed = true by decide) []
  rw [List.append_nil] at start
  have toKey : routerKeyOf (.sized Tag.sym8 qdMaTo) = some (.field .toOverride) := by decide
  have stringA := qdParseInternal_octets (.sized Tag.str8Utf8 [97])
    (Encoding.octetsAll [.sized Tag.sym8 [107], .sized Tag.sym8 qdMaTo, .sized Tag.str8Utf8 [120],
      .sized Tag.str8Utf8 [98]]) (by decide)
  have stringX := qdParseInternal_octets (.sized Tag.str8Utf8 [120])
    (Encoding.octetsAll [.sized Tag.str8Utf8 [98]]) (by decide)
  rw [annotationsMap, start]
  -- the to-override takes `a`, and the flag is cleared
  rw [show (pairElements [(.sized Tag.sym8 qdMaTo, .sized Tag.str8Utf8 [97]),
      (.sized Tag.sym8 [107], .sized Tag.sym8 qdMaTo),
      (.sized Tag.str8Utf8 [120], .sized Tag.str8Utf8 [98])]).length / 2 = 2 + 1 from rfl, keyLoop,
    keyRound_field (by decide) (show (Encoding.sized Tag.str8Utf8 [97]).wellFormed = true by decide) toKey
      (Encoding.octetsAll [.sized Tag.sym8 [107], .sized Tag.sym8 qdMaTo, .sized Tag.str8Utf8 [120],
        .sized Tag.str8Utf8 [98]]) rfl,
    (fieldCheck_eq_none_iff .toOverride stringA).mpr (by decide)]
  dsimp only
  -- `k` takes neither branch: its value is left to be read as the next key
  rw [keyLoop, keyRound_unnamed_routed (show (Encoding.sized Tag.sym8 [107]).wellFormed = true by decide)
    (by decide) (Encoding.octetsAll [.sized Tag.sym8 qdMaTo, .sized Tag.str8Utf8 [120], .sized Tag.str8Utf8 [98]])
    rfl rfl]
  dsimp only
  -- the value `x-opt-qd.to` is read as a key, and the key `x` as its value
  rw [keyLoop, keyRound_field (by decide) (show (Encoding.sized Tag.str8Utf8 [120]).wellFormed = true by decide)
      toKey (Encoding.octetsAll [.sized Tag.str8Utf8 [98]]) rfl,
    (fieldCheck_eq_none_iff .toOverride stringX).mpr (by decide)]
  dsimp only
  rw [keyLoop]
  refine ⟨rfl, ?_, rfl⟩
  simp only [finishAnnotations, storeField, Option.map_some, stringX.2.1]
  rfl

end DispatchRouter.Amqp
