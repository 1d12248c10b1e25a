import ReadTracking.Json.Form
import ReadTracking.Proofs.JsonText
import ReadTracking.Proofs.Records

/-!
# The JSON forms are read back

Every value of the domain is read back from its JSON text.  A record is read back also when its
fields stand in another order or among others, and a policy when fields are missing that hold
their defaults.
-/

set_option autoImplicit false

namespace ReadTracking.Json

variable {α : Type} [Form α] {a : α} {names : List String} {standard fs gs : Fields Value}

def ReadsBack (a : α) : Prop := ofText? (textOf a) = some a

/-- The value is written as a record, and it is read back from every record that says the same:
with the fields in any order, with fields of other names among them, and without fields that are
in `standard`. -/
def ReadsRearranged (names : List String) (standard : Fields Value) (a : α) : Prop :=
  ∃ gs, Form.write a = .record gs ∧
    ∀ fs, (∀ f ∈ fs, f.2.Legible) → Fields.Rearranged names standard fs gs →
      (ofText? (Value.record fs).toText : Option α) = some a

theorem ofText?_toText {v : Value} (h : v.Legible) :
    (ofText? v.toText : Option α) = Form.read? v := by
  rw [ofText?, h.ofText?_toText, Option.bind_some]

theorem readsBack_of (hlegible : (Form.write a).Legible)
    (hread : Form.read? (Form.write a) = some a) : ReadsBack a := by
  rw [ReadsBack, textOf, ofText?_toText hlegible, hread]

theorem ReadsRearranged.readsBack (h : ReadsRearranged names standard a)
    (hwrite : Form.write a = .record gs) (hnames : gs.map (·.1) = names)
    (hlegible : ∀ f ∈ gs, f.2.Legible) : ReadsBack a := by
  obtain ⟨gs', hgs', hread⟩ := h
  rw [hwrite] at hgs'
  cases hgs'
  rw [ReadsBack, textOf, hwrite]
  exact hread gs hlegible (Fields.rearranged_self hnames)

/-- Where every field must be there, it is enough that the reader finds each of them once. -/
theorem reads_record_of (hwrite : Form.write a = .record gs) (hnames : gs.map (·.1) = names)
    (hnodup : names.Nodup) (hlegible : ∀ f ∈ gs, f.2.Legible)
    (hread : ∀ fs : Fields Value, (∀ f ∈ gs, fs.all f.1 = [f.2]) →
      Form.read? (.record fs) = some a) :
    ReadsBack a ∧ ReadsRearranged names [] a := by
  have hrearranged : ReadsRearranged names [] a := by
    refine ⟨gs, hwrite, ?_⟩
    intro fs hfs hsame
    rw [ofText?_toText (.record hfs)]
    apply hread
    intro f hf
    rw [← hnames] at hnodup hsame
    exact hsame.all_of_mem hnodup (List.mem_map_of_mem hf) hf
  exact ⟨hrearranged.readsBack hwrite hnames hlegible, hrearranged⟩

theorem legible_nil : ∀ f ∈ ([] : Fields Value), f.2.Legible := List.forall_mem_nil _

/-! ## Names and choices -/

theorem readsBack_room (r : RoomId) : ReadsBack r := readsBack_of (.text _) rfl

theorem readsBack_event (e : EventId) : ReadsBack e := readsBack_of (.text _) rfl

theorem readsBack_user (u : UserId) : ReadsBack u := readsBack_of (.text _) rfl

theorem read?_visibility (v : Visibility) : Form.read? (Form.write v) = some v := by
  cases v <;> decide

theorem readsBack_visibility (v : Visibility) : ReadsBack v :=
  readsBack_of (.text _) (read?_visibility v)

theorem readsBack_reach (r : Reach) : ReadsBack r := by
  refine readsBack_of (.text _) ?_
  cases r <;> decide

theorem legible_ofOption (s : Option String) : (ofOption s).Legible := by
  cases s with
  | none => exact .null
  | some s => exact .text s

theorem textOrNull?_ofOption (s : Option String) : (ofOption s).textOrNull? = some s := by
  cases s <;> rfl

/-! ## Scopes -/

theorem read?_scope {s : Scope} (hgs : Form.write s = .record gs)
    (h : ∀ f ∈ gs, fs.all f.1 = [f.2]) : Form.read? (.record fs) = some s := by
  cases hgs
  simp only [List.forall_mem_cons] at h
  obtain ⟨hroom, hthread, -⟩ := h
  obtain ⟨⟨room⟩, thread⟩ := s
  unfold instFormScope
  simp only [Value.fields?, Fields.required, Fields.optional, hroom, hthread, orMissing,
    Value.text?, textOrNull?_ofOption, Option.bind_eq_bind, Option.bind_some, Option.map_map]
  cases thread <;> rfl

theorem reads_scope (s : Scope) : ReadsBack s ∧ ReadsRearranged scopeNames [] s := by
  refine reads_record_of rfl rfl ?_ ?_ ?_
  · decide
  · simp only [List.forall_mem_cons]
    exact ⟨.text _, legible_ofOption _, legible_nil⟩
  · intro fs
    exact read?_scope rfl

/-! ## Messages -/

theorem number?_whole {n : Nat} (h : n < 1 <<< 64) : Value.number? (.whole n) = some n := by
  rw [Value.number?, Value.below?, if_pos h]

theorem read?_alternative {c : Content} {name : String}
    (hgs : Form.write c = alternative name gs) (h : ∀ f ∈ gs, fs.all f.1 = [f.2]) :
    Form.read? (alternative name fs) = some c := by
  have honly : ∀ (name : String) (v : Value), gs = [(name, v)] →
      onlyField? (.record fs) name = some v := by
    rintro name v rfl
    have hall := h _ (List.mem_singleton_self _)
    simp only [onlyField?, Value.fields?, Option.bind_some, Fields.required, hall]
  cases c with
  | plain => cases hgs
  | other => cases hgs
  | reply target =>
    cases hgs
    simp [Form.read?, alternative, Value.choice?, honly _ _ rfl, Value.text?]
  | threadReply root =>
    cases hgs
    simp [Form.read?, alternative, Value.choice?, honly _ _ rfl, Value.text?]
  | edit target =>
    cases hgs
    simp [Form.read?, alternative, Value.choice?, honly _ _ rfl, Value.text?]
  | state notify =>
    cases hgs
    simp [Form.read?, alternative, Value.choice?, honly _ _ rfl, Value.bool?]
  | reaction target key =>
    cases hgs
    simp only [List.forall_mem_cons] at h
    obtain ⟨htarget, hkey, -⟩ := h
    simp [Form.read?, alternative, Value.choice?, Value.fields?, Fields.required, htarget, hkey,
      Value.text?]

theorem legible_alternative {name : String} (h : ∀ f ∈ fs, f.2.Legible) :
    (alternative name fs).Legible := by
  apply Value.Legible.record
  simp only [List.forall_mem_cons]
  exact ⟨.record h, legible_nil⟩

theorem fields_of_alternative {c : Content} {name : String}
    (hgs : Form.write c = alternative name gs) :
    (gs.map (·.1)).Nodup ∧ ∀ f ∈ gs, f.2.Legible := by
  cases c with
  | plain => cases hgs
  | other => cases hgs
  | reaction target key =>
    cases hgs
    refine ⟨?_, ?_⟩
    · show reactionNames.Nodup
      decide
    · simp only [List.forall_mem_cons]
      exact ⟨.text _, .text _, legible_nil⟩
  | state notify =>
    cases hgs
    exact ⟨List.nodup_singleton _, List.forall_mem_singleton.2 (.bool _)⟩
  | _ =>
    cases hgs
    exact ⟨List.nodup_singleton _, List.forall_mem_singleton.2 (.text _)⟩

theorem write_content (c : Content) :
    (∃ word, Form.write c = .text word ∧ Form.read? (.text word) = some c) ∨
      ∃ name gs, Form.write c = alternative name gs := by
  cases c with
  | plain => exact .inl ⟨_, rfl, by decide⟩
  | other => exact .inl ⟨_, rfl, by decide⟩
  | _ => exact .inr ⟨_, _, rfl⟩

theorem read?_content (c : Content) :
    (Form.write c).Legible ∧ Form.read? (Form.write c) = some c := by
  rcases write_content c with ⟨word, hwrite, hread⟩ | ⟨name, gs, hwrite⟩
  · rw [hwrite]
    exact ⟨.text word, hread⟩
  · obtain ⟨hnodup, hlegible⟩ := fields_of_alternative hwrite
    have hread := read?_alternative hwrite fun f hf => Fields.all_of_mem hnodup hf
    rw [hwrite]
    exact ⟨legible_alternative hlegible, hread⟩

theorem reads_content_rearranged {c : Content} {name : String}
    (hgs : Form.write c = alternative name gs) (hlegible : ∀ f ∈ fs, f.2.Legible)
    (hfs : Fields.Rearranged (gs.map (·.1)) [] fs gs) :
    (ofText? (alternative name fs).toText : Option Content) = some c := by
  rw [ofText?_toText (legible_alternative hlegible)]
  apply read?_alternative hgs
  intro f hf
  exact hfs.all_of_mem (fields_of_alternative hgs).1 (List.mem_map_of_mem hf) hf

theorem read?_message {m : Message} (hsequence : m.sequence < 1 <<< 64)
    (hgs : Form.write m = .record gs) (h : ∀ f ∈ gs, fs.all f.1 = [f.2]) :
    Form.read? (.record fs) = some m := by
  cases hgs
  simp only [List.forall_mem_cons] at h
  obtain ⟨hid, hroom, hsender, hnumber, hcontent, hhighlight, -⟩ := h
  unfold instFormMessage
  simp only [Value.fields?, Fields.required, hid, hroom, hsender, hnumber, hcontent, hhighlight,
    Value.text?, Value.bool?, number?_whole hsequence, (read?_content m.content).2,
    Option.bind_eq_bind, Option.bind_some]

theorem reads_message {m : Message} (h : m.sequence < 1 <<< 64) :
    ReadsBack m ∧ ReadsRearranged messageNames [] m := by
  refine reads_record_of rfl rfl ?_ ?_ ?_
  · decide
  · simp only [List.forall_mem_cons]
    exact ⟨.text _, .text _, .text _, .whole _, (read?_content _).1, .bool _, legible_nil⟩
  · intro fs
    exact read?_message h rfl

/-! ## Stored markers -/

theorem read?_entry {e : Entry} (hsequence : e.mark.sequence < 1 <<< 64)
    (hstamp : e.mark.stamp < 1 <<< 64) (hgs : Form.write e = .record gs)
    (h : ∀ f ∈ gs, fs.all f.1 = [f.2]) : Form.read? (.record fs) = some e := by
  cases hgs
  simp only [List.forall_mem_cons] at h
  obtain ⟨hroom, hthread, hkind, hevent, hnumber, htime, -⟩ := h
  obtain ⟨⟨⟨⟨room⟩, thread⟩, visibility⟩, ⟨⟨event⟩, sequence, stamp⟩⟩ := e
  unfold instFormEntry
  simp only [Value.fields?, Fields.required, Fields.optional, hroom, hthread, hkind, hevent,
    hnumber, htime, orMissing, Value.text?, textOrNull?_ofOption, read?_visibility,
    number?_whole hsequence, number?_whole hstamp, Option.bind_eq_bind, Option.bind_some,
    Option.map_map]
  cases thread <;> rfl

theorem reads_entry {e : Entry} (hsequence : e.mark.sequence < 1 <<< 64)
    (hstamp : e.mark.stamp < 1 <<< 64) : ReadsBack e ∧ ReadsRearranged entryNames [] e := by
  refine reads_record_of rfl rfl ?_ ?_ ?_
  · decide
  · simp only [List.forall_mem_cons]
    exact ⟨.text _, legible_ofOption _, .text _, .text _, .whole _, .whole _, legible_nil⟩
  · intro fs
    exact read?_entry hsequence hstamp rfl

/-! ## Policies -/

def durationBound : Nat := (1 <<< 64) * nanosPerSecond

theorem readDuration?_writeDuration {n : Nat} (h : n < durationBound) :
    readDuration? (writeDuration n) = some n := by
  have hsecs : n / nanosPerSecond < 1 <<< 64 := by
    apply Nat.div_lt_of_lt_mul
    rw [Nat.mul_comm]
    exact h
  have hnanos : n % nanosPerSecond < nanosPerSecond := Nat.mod_lt _ (by decide)
  have hbelow : n % nanosPerSecond < 1 <<< 32 := Nat.lt_trans hnanos (by decide)
  have hcarry : n % nanosPerSecond / nanosPerSecond = 0 := Nat.div_eq_of_lt hnanos
  have hwhole : n / nanosPerSecond * nanosPerSecond + n % nanosPerSecond = n :=
    Nat.div_add_mod' n nanosPerSecond
  have honly : (writeDuration n).onlyNames durationNames = true := by
    simp [writeDuration, Value.onlyNames, durationNames]
  have hnodup : durationNames.Nodup := by decide
  let fs : Fields Value :=
    [("secs", .whole (n / nanosPerSecond)), ("nanos", .whole (n % nanosPerSecond))]
  have hfields : (writeDuration n).fields? durationNames = some fs := rfl
  have hall : ∀ f ∈ fs, fs.all f.1 = [f.2] := fun f hf => Fields.all_of_mem hnodup hf
  simp only [fs, List.forall_mem_cons] at hall
  obtain ⟨hfirst, hsecond, -⟩ := hall
  rw [readDuration?, honly, hfields]
  simp only [fs, Fields.required, hfirst, hsecond, number?_whole hsecs,
    Value.below?, if_pos hbelow, Option.bind_eq_bind, Option.bind_some, hcarry, Nat.add_zero,
    hsecs, decide_true, Bool.and_self, if_true, hwhole]

theorem orDefault_of_rearranged {β : Type} {name : String} {read : Value → Option β} {x d : β}
    (h : Fields.Rearranged names standard fs gs) (hgs : (gs.map (·.1)).Nodup)
    (hstandard : (standard.map (·.1)).Nodup) (hname : name ∈ names) (v w : Value)
    (hv : (name, v) ∈ gs) (hw : (name, w) ∈ standard) (hread : read v = some x)
    (hdefault : read w = some d) : orDefault (fs.optional name) read d = some x := by
  rcases h.field hgs hname hv with hall | ⟨hall, hmem⟩
  · rw [Fields.optional, hall]
    exact hread
  · have hsame := Fields.all_of_mem hstandard hmem
    rw [Fields.all_of_mem hstandard hw, List.singleton_inj] at hsame
    rw [hsame, hread] at hdefault
    rw [Fields.optional, hall]
    exact hdefault.symm

theorem policyNames_nodup : policyNames.Nodup := by decide

theorem read?_policy {p : Policy} (hdebounce : p.debounce < durationBound)
    (hgs : Form.write p = .record gs) (hstandard : Form.write ({} : Policy) = .record standard)
    (h : Fields.Rearranged policyNames standard fs gs) :
    Form.read? (.record fs) = some p := by
  cases hgs
  cases hstandard
  have hflag : ∀ name ∈ policyNames, ∀ b d, (name, Value.bool b) ∈ _ → (name, Value.bool d) ∈ _ →
      orDefault (fs.optional name) Value.bool? d = some b :=
    fun name hname b d hb hd => orDefault_of_rearranged h policyNames_nodup policyNames_nodup
      hname _ _ hb hd rfl rfl
  have hedits := hflag "count_edits" (by decide) p.countEdits
    ({} : Policy).countEdits (by simp) (by simp)
  have hnotifying := hflag "count_notifying_state_events" (by decide) p.countNotifyingState
    ({} : Policy).countNotifyingState (by simp) (by simp)
  have hown := hflag "own_events_mark_read" (by decide) p.ownMessagesRead
    ({} : Policy).ownMessagesRead (by simp) (by simp)
  have hsend := hflag "send_public_receipts" (by decide) p.sendShared
    ({} : Policy).sendShared (by simp) (by simp)
  have hdelay : orDefault (fs.optional "receipt_debounce") readDuration?
      ({} : Policy).debounce = some p.debounce :=
    orDefault_of_rearranged h policyNames_nodup policyNames_nodup (by decide) _ _
      (by simp) (by simp) (readDuration?_writeDuration hdebounce)
      (readDuration?_writeDuration (by decide))
  unfold instFormPolicy
  simp only [Value.someFields?, hedits, hnotifying, hown, hsend, hdelay, Option.bind_eq_bind,
    Option.bind_some]

theorem legible_duration (n : Nat) : (writeDuration n).Legible := by
  apply Value.Legible.record
  simp only [List.forall_mem_cons]
  exact ⟨.whole _, .whole _, legible_nil⟩

theorem reads_policy {p : Policy} (hdebounce : p.debounce < durationBound)
    (hstandard : Form.write ({} : Policy) = .record standard) :
    ReadsBack p ∧ ReadsRearranged policyNames standard p := by
  have hrearranged : ReadsRearranged policyNames standard p := by
    refine ⟨_, rfl, ?_⟩
    intro fs hlegible hfs
    rw [ofText?_toText (.record hlegible)]
    exact read?_policy hdebounce rfl hstandard hfs
  refine ⟨hrearranged.readsBack rfl rfl ?_, hrearranged⟩
  simp only [List.forall_mem_cons]
  exact ⟨.bool _, .bool _, .bool _, .bool _, legible_duration _, legible_nil⟩

/-! ## All forms -/

/-- Every value of every type with a JSON form is read back from its text, whatever its texts
hold and with all numbers of 64 bits.  Records are read back with their fields in any order and
with others among them, and a policy without fields that hold their defaults. -/
theorem forms_read_back :
    (∀ r : RoomId, ReadsBack r) ∧
    (∀ e : EventId, ReadsBack e) ∧
    (∀ u : UserId, ReadsBack u) ∧
    (∀ v : Visibility, ReadsBack v) ∧
    (∀ r : Reach, ReadsBack r) ∧
    (∀ c : Content, ReadsBack c ∧
      ∀ name gs, Form.write c = alternative name gs →
        ∀ fs, (∀ f ∈ fs, f.2.Legible) → Fields.Rearranged (gs.map (·.1)) [] fs gs →
          ofText? (alternative name fs).toText = some c) ∧
    (∀ s : Scope, ReadsBack s ∧ ReadsRearranged scopeNames [] s) ∧
    (∀ m : Message, m.sequence < 1 <<< 64 → ReadsBack m ∧ ReadsRearranged messageNames [] m) ∧
    (∀ e : Entry, e.mark.sequence < 1 <<< 64 → e.mark.stamp < 1 <<< 64 →
      ReadsBack e ∧ ReadsRearranged entryNames [] e) ∧
    ∃ standard, Form.write ({} : Policy) = .record standard ∧
      ∀ p : Policy, p.debounce < durationBound →
        ReadsBack p ∧ ReadsRearranged policyNames standard p := by
  refine ⟨readsBack_room, readsBack_event, readsBack_user, readsBack_visibility, readsBack_reach,
    ?_, reads_scope, fun _ => reads_message, fun _ => reads_entry, ?_⟩
  · intro c
    refine ⟨readsBack_of (read?_content c).1 (read?_content c).2, ?_⟩
    intro name gs hgs fs hlegible hfs
    exact reads_content_rearranged hgs hlegible hfs
  · exact ⟨_, rfl, fun p hp => reads_policy hp rfl⟩

/-- A message of the last number of all with an awkward name, and a policy of which only two
fields are written, in the opposite order and around one that no policy has. -/
theorem forms_read_back_of_a_sparse_policy :
    let m : Message :=
      ⟨⟨"$\"\\\n\x01é😀"⟩, ⟨"!r"⟩, ⟨"@u"⟩, (1 <<< 64) - 1, .reaction ⟨"$0"⟩ "👍", true⟩
    let p : Policy := { countEdits := true, debounce := 1500000000 }
    let fs : Fields Value :=
      [("receipt_debounce", writeDuration 1500000000),
        ("lat\ter", .list [.numeral ['-', '0', '.', '5', 'e', '9'], .null]),
        ("count_edits", .bool true)]
    m.sequence < 1 <<< 64 ∧ p.debounce < durationBound ∧ (∀ f ∈ fs, f.2.Legible) ∧
      ReadsBack m ∧ ofText? (Value.record fs).toText = some p := by
  intro m p fs
  have hsequence : m.sequence < 1 <<< 64 := by decide
  have hdebounce : p.debounce < durationBound := by decide
  have hnumeral : Numeral ['-', '0', '.', '5', 'e', '9'] := by
    have hdigit : ∀ c, isDigit c = true → IsDigits [c] := by
      intro c hc
      exact ⟨List.cons_ne_nil _ _, List.forall_mem_singleton.2 hc⟩
    exact .mk (.inr rfl) ⟨hdigit '0' rfl, fun _ => rfl⟩ (.point (hdigit '5' rfl))
      (.mk (.inl rfl) (.inl rfl) (hdigit '9' rfl)) (by decide)
  have hlegible : ∀ f ∈ fs, f.2.Legible := by
    have hitems : ∀ v ∈ [Value.numeral ['-', '0', '.', '5', 'e', '9'], .null], v.Legible := by
      simp only [List.forall_mem_cons]
      exact ⟨.numeral hnumeral, .null, List.forall_mem_nil _⟩
    simp only [fs, List.forall_mem_cons]
    exact ⟨legible_duration _, .list hitems, .bool _, legible_nil⟩
  obtain ⟨-, -, -, -, -, -, -, hmessage, -, standard, hstandard, hpolicy⟩ := forms_read_back
  obtain ⟨gs, hgs, hread⟩ := (hpolicy p hdebounce).2
  refine ⟨hsequence, hdebounce, hlegible, (hmessage m hsequence).1, hread fs hlegible ?_⟩
  cases hstandard
  cases hgs
  refine ⟨[("count_notifying_state_events", .bool true), ("own_events_mark_read", .bool true),
    ("send_public_receipts", .bool true)], ?_, ?_⟩
  · simp
  · have hknown : fs.filter (fun f => policyNames.contains f.1) =
        [("receipt_debounce", writeDuration 1500000000), ("count_edits", .bool true)] := by
      simp [fs, policyNames]
    rw [hknown]
    exact @List.perm_append_comm _ [("receipt_debounce", _)] [_, _, _, _]

end ReadTracking.Json
