import Llamaste.Lib.Selection
import Llamaste.MdnsLayout

/-!
# The case of DNS names

Names are compared without regard to the case of ASCII letters when TXT and A records are joined
to a service, but not where the wanted service is looked for in a name, nor where `.local` is
stripped from a target. Two packets of one layout that differ in the case of letters only are read
side by side.

Source: `net_mdns.cpp`.

## Main results

* `caseBlind_iff`: the services of the two packets are the same but for the case of the host names,
  and no two SRV records have swapped, exactly when every SRV record is wanted, and its target
  stripped, in both packets or in neither.
-/

namespace Llamaste

/-- `tolower` of a byte. -/
def lowerByte (b : UInt8) : UInt8 := if 65 ≤ b ∧ b ≤ 90 then b + 32 else b

/-- Two packets differ only in the case of letters, and only of letters of names: the records are
of the same types and stand at the same places, as do the labels of their names, and all other data
is the same. -/
structure CaseVariant (p q : Bytes) : Prop where
  letters : p.map lowerByte = q.map lowerByte
  layout : layout p = layout q

/-- The services are the same, but for the case of the host names. -/
def SameServices (ds es : List DiscoveredService) : Prop :=
  List.Forall₂ (fun d e => d.port = e.port ∧ d.ip = e.ip ∧ d.txt = e.txt ∧
    dnsNameEq d.hostname e.hostname = true) ds es

/-- The services of two packets are the same, but for the case of the host names. -/
def CaseBlind (serviceType : Text) (p q : Bytes) : Prop :=
  ∃ ds es, parseServiceResponses p serviceType = some ds ∧
    parseServiceResponses q serviceType = some es ∧ SameServices ds es

/-- A target that `.local` is stripped from. -/
def EndsLocal (target : Text) : Prop :=
  target.length > localSuffix.length ∧
    target.drop (target.length - localSuffix.length) = localSuffix

instance (target : Text) : Decidable (EndsLocal target) := inferInstanceAs (Decidable (_ ∧ _))

/-- The name that labels of a packet make up. -/
abbrev spell (pkt : Bytes) (spans : List LabelSpan) : Text := joinSpans pkt [] spans

/-- Every SRV record is wanted in both packets or in neither, and where it is wanted, its target is
stripped in both or in neither. -/
def Alike (serviceType : Text) (p q : Bytes) : Prop :=
  ∀ r ∈ layout p, ∀ port target, r.data = .srv port target →
    wanted serviceType (spell p r.owner) = wanted serviceType (spell q r.owner) ∧
      (wanted serviceType (spell p r.owner) = true →
        (EndsLocal (spell p target) ↔ EndsLocal (spell q target)))

/-- An SRV record of the packets is wanted in the first one only. -/
def OnlyFirst (serviceType : Text) (p q : Bytes) : Prop :=
  ∃ r ∈ layout p, (∃ port target, r.data = .srv port target) ∧
    wanted serviceType (spell p r.owner) = true ∧ wanted serviceType (spell q r.owner) = false

/-- One packet has an SRV record that is not wanted in the other one, and the other way round. -/
def Swapped (serviceType : Text) (p q : Bytes) : Prop :=
  OnlyFirst serviceType p q ∧ OnlyFirst serviceType q p

/-! ### Letters -/

theorem toLower_ofNat (b : UInt8) :
    (Char.ofNat b.toNat).toLower = Char.ofNat (lowerByte b).toNat := by
  have hall : ∀ n < 256, (Char.ofNat (UInt8.ofNat n).toNat).toLower =
      Char.ofNat (lowerByte (UInt8.ofNat n)).toNat := by
    decide +kernel
  have hb := hall b.toNat b.toNat_lt
  rwa [UInt8.ofNat_toNat] at hb

theorem map_toLower_ofBytes (bs : Bytes) :
    (Text.ofBytes bs).map Char.toLower = Text.ofBytes (bs.map lowerByte) := by
  rw [Text.ofBytes, Text.ofBytes, List.map_map, List.map_map]
  exact List.map_congr_left fun b _ => toLower_ofNat b

section

variable {p q : Bytes}

theorem dnsNameEq_iff {a b : Text} :
    dnsNameEq a b = true ↔ a.map Char.toLower = b.map Char.toLower := beq_iff_eq

theorem lower_labelText (h : p.map lowerByte = q.map lowerByte) (span : LabelSpan) :
    (labelText p span).map Char.toLower = (labelText q span).map Char.toLower := by
  rw [labelText, labelText, map_toLower_ofBytes, map_toLower_ofBytes, List.map_take, List.map_take,
    List.map_drop, List.map_drop, h]

theorem lower_appendLabel {name name' label label' : Text}
    (hname : name.map Char.toLower = name'.map Char.toLower)
    (hlabel : label.map Char.toLower = label'.map Char.toLower) :
    (appendLabel name label).map Char.toLower = (appendLabel name' label').map Char.toLower := by
  have hnil : name = [] ↔ name' = [] := by
    rw [← List.map_eq_nil_iff (f := Char.toLower), hname, List.map_eq_nil_iff]
  rw [appendLabel, appendLabel]
  by_cases h : name = []
  · rwa [if_pos h, if_pos (hnil.mp h)]
  · rw [if_neg h, if_neg fun h' => h (hnil.mpr h'), List.map_append, List.map_append,
      List.map_cons, List.map_cons, hname, hlabel]

theorem lower_joinSpans (h : p.map lowerByte = q.map lowerByte) (spans : List LabelSpan)
    {name name' : Text} (hname : name.map Char.toLower = name'.map Char.toLower) :
    (joinSpans p name spans).map Char.toLower = (joinSpans q name' spans).map Char.toLower := by
  induction spans generalizing name name' with
  | nil => exact hname
  | cons span spans ih => exact ih (lower_appendLabel hname (lower_labelText h span))

/-- Names of the same labels differ in the case of letters only. -/
theorem lower_spell (h : p.map lowerByte = q.map lowerByte) (spans : List LabelSpan) :
    (spell p spans).map Char.toLower = (spell q spans).map Char.toLower :=
  lower_joinSpans h spans rfl

end

/-! ### The suffix -/

theorem stripLocal_of_ends {target : Text} (h : EndsLocal target) :
    stripLocal target = target.take (target.length - localSuffix.length) := if_pos h

theorem stripLocal_of_not {target : Text} (h : ¬ EndsLocal target) :
    stripLocal target = target := if_neg h

/-- Host names correspond exactly when the suffix is stripped from both or from neither. -/
theorem lower_stripLocal_iff {a b : Text} (h : a.map Char.toLower = b.map Char.toLower) :
    (stripLocal a).map Char.toLower = (stripLocal b).map Char.toLower ↔
      (EndsLocal a ↔ EndsLocal b) := by
  have hlength : a.length = b.length := by
    have hmap := congrArg List.length h
    rwa [List.length_map, List.length_map] at hmap
  have hshorter : ∀ {t : Text}, EndsLocal t → (stripLocal t).length < t.length := by
    intro t ht
    have hsix : localSuffix.length = 6 := rfl
    have hlong := ht.1
    rw [stripLocal_of_ends ht, List.length_take]
    omega
  by_cases ha : EndsLocal a
  · by_cases hb : EndsLocal b
    · rw [stripLocal_of_ends ha, stripLocal_of_ends hb, List.map_take, List.map_take, h, hlength]
      exact iff_of_true rfl (iff_of_true ha hb)
    · refine iff_of_false (fun heq => ?_) fun hiff => hb (hiff.mp ha)
      have hlen := congrArg List.length heq
      have hlt := hshorter ha
      rw [List.length_map, List.length_map, stripLocal_of_not hb] at hlen
      omega
  · by_cases hb : EndsLocal b
    · refine iff_of_false (fun heq => ?_) fun hiff => ha (hiff.mpr hb)
      have hlen := congrArg List.length heq
      have hlt := hshorter hb
      rw [List.length_map, List.length_map, stripLocal_of_not ha] at hlen
      omega
    · rw [stripLocal_of_not ha, stripLocal_of_not hb]
      exact iff_of_true h (iff_of_false ha hb)

/-! ### The joins -/

/-- Two entries with the same owner, but for its case, and the same data. -/
def SameEntry {α : Type} (a b : Text × α) : Prop :=
  a.1.map Char.toLower = b.1.map Char.toLower ∧ a.2 = b.2

/-- What is joined by a name depends on no case. -/
theorem find?_owner_congr {α : Type} {as bs : List (Text × α)} (h : List.Forall₂ SameEntry as bs)
    {name name' : Text} (hname : name.map Char.toLower = name'.map Char.toLower) (d : α) :
    (as.find? fun r => dnsNameEq r.1 name).elim d Prod.snd =
      (bs.find? fun r => dnsNameEq r.1 name').elim d Prod.snd := by
  induction h with
  | nil => rfl
  | @cons a b as bs hab _ ih =>
    have heq : dnsNameEq a.1 name = dnsNameEq b.1 name' := by
      rw [Bool.eq_iff_iff, dnsNameEq_iff, dnsNameEq_iff, hab.1, hname]
    rw [List.find?_cons, List.find?_cons, heq]
    cases dnsNameEq b.1 name' with
    | true => exact hab.2
    | false => exact ih

section

variable {p q : Bytes}

/-- Records that are selected alike from the layout. -/
theorem forall₂_entries {α : Type} {f : ReadRecord Text → Option (Text × α)}
    (hf : ∀ r : ReadRecord (List LabelSpan),
      Option.Rel SameEntry (f (r.map (spell p))) (f (r.map (spell q)))) (h : CaseVariant p q) :
    List.Forall₂ SameEntry ((readings p).filterMap f) ((readings q).filterMap f) := by
  have hrel : Relator.LiftFun (· = ·) (Option.Rel SameEntry)
      (fun r : ReadRecord (List LabelSpan) => f (r.map (spell p)))
      (fun r => f (r.map (spell q))) := by
    rintro r r' rfl
    exact hf r
  have hsame : List.Forall₂ (· = ·) (layout p) (layout q) := by
    rw [List.forall₂_eq_eq_eq, h.layout]
  rw [readings, readings, List.filterMap_map, List.filterMap_map]
  exact List.rel_filterMap hrel hsame

theorem forall₂_txt (h : CaseVariant p q) :
    List.Forall₂ SameEntry ((readings p).filterMap ReadRecord.txt?)
      ((readings q).filterMap ReadRecord.txt?) := by
  refine forall₂_entries (fun r => ?_) h
  obtain ⟨start, owner, data⟩ := r
  cases data with
  | txt kvs => exact .some ⟨lower_spell h.letters owner, rfl⟩
  | srv port target => exact .none
  | a ip => exact .none
  | other => exact .none

theorem forall₂_a (h : CaseVariant p q) :
    List.Forall₂ SameEntry ((readings p).filterMap ReadRecord.a?)
      ((readings q).filterMap ReadRecord.a?) := by
  refine forall₂_entries (fun r => ?_) h
  obtain ⟨start, owner, data⟩ := r
  cases data with
  | a ip => exact .some ⟨lower_spell h.letters owner, rfl⟩
  | srv port target => exact .none
  | txt kvs => exact .none
  | other => exact .none

/-! ### The services, record by record -/

/-- The service that a record of the layout makes. -/
def serviceOf (serviceType : Text) (pkt : Bytes) (r : ReadRecord (List LabelSpan)) :
    Option DiscoveredService :=
  ((r.map (spell pkt)).srv? serviceType).map fun x =>
    mergeService (Records.of serviceType (readings pkt)) x.1 x.2

theorem services_readings (serviceType : Text) (pkt : Bytes) :
    services serviceType (readings pkt) = (layout pkt).filterMap (serviceOf serviceType pkt) := by
  have hsrv : (Records.of serviceType (readings pkt)).srv =
      (layout pkt).filterMap fun r => (r.map (spell pkt)).srv? serviceType := List.filterMap_map
  rw [services, hsrv, List.map_filterMap]
  rfl

/-- Only a wanted SRV record makes a service. -/
theorem isSome_serviceOf {serviceType : Text} {pkt : Bytes} {r : ReadRecord (List LabelSpan)} :
    (serviceOf serviceType pkt r).isSome = true ↔
      (∃ port target, r.data = .srv port target) ∧
        wanted serviceType (spell pkt r.owner) = true := by
  obtain ⟨start, owner, data⟩ := r
  rw [serviceOf, Option.isSome_map]
  cases data with
  | srv port target =>
    rw [ReadRecord.map_srv, ReadRecord.srv?_srv]
    by_cases h : wanted serviceType (spell pkt owner) = true
    · rw [if_pos h]
      exact iff_of_true rfl ⟨⟨port, target, rfl⟩, h⟩
    · rw [if_neg h]
      exact iff_of_false Bool.false_ne_true fun hw => h hw.2
  | txt kvs => exact iff_of_false Bool.false_ne_true fun h => nomatch h.1
  | a ip => exact iff_of_false Bool.false_ne_true fun h => nomatch h.1
  | other => exact iff_of_false Bool.false_ne_true fun h => nomatch h.1

theorem serviceOf_srv {serviceType : Text} {pkt : Bytes} {r : ReadRecord (List LabelSpan)}
    {port : UInt16} {target : List LabelSpan} (hdata : r.data = .srv port target)
    (hwanted : wanted serviceType (spell pkt r.owner) = true) :
    serviceOf serviceType pkt r = some (mergeService (Records.of serviceType (readings pkt))
      (spell pkt r.owner) { target := stripLocal (spell pkt target), port }) := by
  obtain ⟨start, owner, data⟩ := r
  obtain rfl : data = .srv port target := hdata
  rw [serviceOf, ReadRecord.map_srv, ReadRecord.srv?_srv, if_pos hwanted]
  rfl

/-- The services of one record in both packets are the same exactly when the suffix is stripped in
both or in neither. -/
theorem sameService_iff (h : CaseVariant p q) (serviceType : Text) {owner target : List LabelSpan}
    {port : UInt16} {d e : DiscoveredService}
    (hd : d = mergeService (Records.of serviceType (readings p)) (spell p owner)
      { target := stripLocal (spell p target), port })
    (he : e = mergeService (Records.of serviceType (readings q)) (spell q owner)
      { target := stripLocal (spell q target), port }) :
    (d.port = e.port ∧ d.ip = e.ip ∧ d.txt = e.txt ∧ dnsNameEq d.hostname e.hostname = true) ↔
      (EndsLocal (spell p target) ↔ EndsLocal (spell q target)) := by
  have hhost := lower_stripLocal_iff (lower_spell h.letters target)
  subst hd he
  rw [← hhost, dnsNameEq_iff]
  constructor
  · exact fun hall => hall.2.2.2
  · intro hsame
    refine ⟨rfl, ?_, ?_, hsame⟩
    · have hfqdn : (stripLocal (spell p target) ++ localSuffix).map Char.toLower =
          (stripLocal (spell q target) ++ localSuffix).map Char.toLower := by
        rw [List.map_append, List.map_append, hsame]
      exact find?_owner_congr (forall₂_a h) hfqdn []
    · exact find?_owner_congr (forall₂_txt h) (lower_spell h.letters owner) []

/-- The services are the same record by record where the same records are wanted. -/
theorem sameServices_iff (h : CaseVariant p q) {serviceType : Text}
    (hwanted : ∀ r ∈ layout p, (∃ port target, r.data = .srv port target) →
      wanted serviceType (spell p r.owner) = wanted serviceType (spell q r.owner)) :
    SameServices (services serviceType (readings p)) (services serviceType (readings q)) ↔
      ∀ r ∈ layout p, ∀ port target, r.data = .srv port target →
        wanted serviceType (spell p r.owner) = true →
          (EndsLocal (spell p target) ↔ EndsLocal (spell q target)) := by
  have hsome : ∀ r ∈ layout p,
      (serviceOf serviceType p r).isSome = (serviceOf serviceType q r).isSome := by
    intro r hr
    rw [Bool.eq_iff_iff, isSome_serviceOf, isSome_serviceOf]
    exact and_congr_right fun hsrv => by rw [hwanted r hr hsrv]
  rw [services_readings, services_readings, ← h.layout, SameServices, Selection.forall₂_iff hsome]
  refine forall₂_congr fun r hr => ⟨fun hsame port target hdata hp => ?_, fun hends d e hd he => ?_⟩
  · have hq := (hwanted r hr ⟨port, target, hdata⟩) ▸ hp
    exact (sameService_iff h serviceType rfl rfl).mp
      (hsame _ _ (serviceOf_srv hdata hp) (serviceOf_srv hdata hq))
  · obtain ⟨⟨port, target, hdata⟩, hp⟩ := isSome_serviceOf.mp (Option.isSome_of_eq_some hd)
    have hq := (hwanted r hr ⟨port, target, hdata⟩) ▸ hp
    rw [serviceOf_srv hdata hp] at hd
    rw [serviceOf_srv hdata hq] at he
    exact (sameService_iff h serviceType (Option.some.inj hd).symm (Option.some.inj he).symm).mpr
      (hends port target hdata hp)

theorem caseBlind_iff_sameServices (serviceType : Text) (p q : Bytes) :
    CaseBlind serviceType p q ↔
      SameServices (services serviceType (readings p)) (services serviceType (readings q)) := by
  constructor
  · rintro ⟨ds, es, hds, hes, hsame⟩
    obtain rfl := Option.some.inj ((parseServiceResponses_eq p serviceType).symm.trans hds)
    obtain rfl := Option.some.inj ((parseServiceResponses_eq q serviceType).symm.trans hes)
    exact hsame
  · exact fun hsame => ⟨_, _, parseServiceResponses_eq p serviceType,
      parseServiceResponses_eq q serviceType, hsame⟩

/-- Lists of one length, where one packet wants all that the other one does. -/
theorem wanted_eq_of_length (h : CaseVariant p q) {serviceType : Text}
    (hlength : (services serviceType (readings p)).length =
      (services serviceType (readings q)).length)
    (hpart : ∀ r ∈ layout p, (∃ port target, r.data = .srv port target) →
      wanted serviceType (spell p r.owner) = true → wanted serviceType (spell q r.owner) = true) :
    ∀ r ∈ layout p, (∃ port target, r.data = .srv port target) →
      wanted serviceType (spell p r.owner) = wanted serviceType (spell q r.owner) := by
  rw [services_readings, services_readings, ← h.layout] at hlength
  have hsome := Selection.isSome_eq_of_length (fun r hr hp => ?_) hlength
  · intro r hr hsrv
    have heq := hsome r hr
    rw [Bool.eq_iff_iff, isSome_serviceOf, isSome_serviceOf, and_congr_right_iff] at heq
    exact Bool.eq_iff_iff.mpr (heq hsrv)
  · obtain ⟨hsrv, hw⟩ := isSome_serviceOf.mp hp
    exact isSome_serviceOf.mpr ⟨hsrv, hpart r hr hsrv hw⟩

theorem CaseVariant.symm (h : CaseVariant p q) : CaseVariant q p :=
  ⟨h.letters.symm, h.layout.symm⟩

/-- What one packet wants is wanted by the other one, if it has none of its own. -/
theorem wanted_of_not_onlyFirst {serviceType : Text} (h : ¬ OnlyFirst serviceType p q) :
    ∀ r ∈ layout p, (∃ port target, r.data = .srv port target) →
      wanted serviceType (spell p r.owner) = true →
        wanted serviceType (spell q r.owner) = true := by
  intro r hr hsrv hp
  by_contra hq
  exact h ⟨r, hr, hsrv, hp, Bool.eq_false_iff.mpr hq⟩

/-- **Names are matched without regard to case**, and no two records have swapped, exactly when
every SRV record is wanted, and its target stripped, in both packets or in neither. -/
theorem caseBlind_iff (h : CaseVariant p q) (serviceType : Text) :
    CaseBlind serviceType p q ∧ ¬ Swapped serviceType p q ↔ Alike serviceType p q := by
  rw [caseBlind_iff_sameServices]
  constructor
  · rintro ⟨hsame, hswapped⟩
    have hlength := hsame.length_eq
    have hwanted : ∀ r ∈ layout p, (∃ port target, r.data = .srv port target) →
        wanted serviceType (spell p r.owner) = wanted serviceType (spell q r.owner) := by
      rcases not_and_or.mp hswapped with hfirst | hsecond
      · exact wanted_eq_of_length h hlength (wanted_of_not_onlyFirst hfirst)
      · intro r hr hsrv
        exact (wanted_eq_of_length h.symm hlength.symm (wanted_of_not_onlyFirst hsecond) r
          (h.layout ▸ hr) hsrv).symm
    intro r hr port target hdata
    exact ⟨hwanted r hr ⟨port, target, hdata⟩,
      (sameServices_iff h hwanted).mp hsame r hr port target hdata⟩
  · intro halike
    have hwanted : ∀ r ∈ layout p, (∃ port target, r.data = .srv port target) →
        wanted serviceType (spell p r.owner) = wanted serviceType (spell q r.owner) := by
      rintro r hr ⟨port, target, hdata⟩
      exact (halike r hr port target hdata).1
    refine ⟨(sameServices_iff h hwanted).mpr fun r hr port target hdata =>
      (halike r hr port target hdata).2, ?_⟩
    rintro ⟨⟨r, hr, hsrv, hp, hq⟩, -⟩
    exact absurd (hp.symm.trans ((hwanted r hr hsrv).trans hq)) Bool.noConfusion

end

/-- A response of one SRV record. -/
def srvPacket (owner target : Text) : Bytes :=
  [0, 0, 0x84, 0, 0, 0, 0, 1, 0, 0, 0, 0] ++
    encodeRecord owner dnsTypeSrv dnsClassIn mdnsAddrTtl (srvRdata target 50052)

/-- The service is found in a response in other letters of the host. -/
theorem caseBlind_iff_srvPacket :
    CaseBlind "_llama-rpc._tcp" (srvPacket "a._llama-rpc._tcp.local" "a.local")
      (srvPacket "A._llama-rpc._tcp.local" "A.local") ∧
    ¬ Swapped "_llama-rpc._tcp" (srvPacket "a._llama-rpc._tcp.local" "a.local")
      (srvPacket "A._llama-rpc._tcp.local" "A.local") := by
  refine (caseBlind_iff ⟨by decide +kernel, by decide +kernel⟩ "_llama-rpc._tcp").mpr ?_
  have hlayout : layout (srvPacket "a._llama-rpc._tcp.local" "a.local") =
      [⟨12, [(13, 1), (15, 10), (26, 4), (31, 5)], .srv 50052 [(54, 1), (56, 5)]⟩] := by
    decide +kernel
  intro r hr port target hdata
  rw [hlayout] at hr
  obtain rfl := List.mem_singleton.mp hr
  obtain ⟨rfl, rfl⟩ := RecordData.srv.inj hdata
  exact ⟨by decide +kernel, fun _ => by decide +kernel⟩

/-- The service is not found in a response in other letters of the service. -/
theorem not_caseBlind : ¬ ∀ (serviceType : Text) (p q : Bytes), CaseVariant p q →
    CaseBlind serviceType p q := by
  intro h
  have hblind := h "_llama-rpc._tcp" (srvPacket "a._llama-rpc._tcp.local" "a.local")
    (srvPacket "a._Llama-RPC._tcp.local" "a.local") ⟨by decide +kernel, by decide +kernel⟩
  rw [caseBlind_iff_sameServices] at hblind
  exact absurd hblind.length_eq (by decide +kernel)

end Llamaste
