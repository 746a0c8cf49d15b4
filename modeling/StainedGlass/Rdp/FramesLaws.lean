import StainedGlass.Lib.Batches
import StainedGlass.Rdp.PlanarBounds

namespace StainedGlass.Rdp

open Lib Planar

def side (n k : Nat) : Nat := if n - k * tile < tile then n - k * tile else tile

theorem side_eq_min (n k : Nat) : side n k = min tile (n - k * tile) := by
  rw [side]
  split <;> omega

theorem sum_side (n c : Nat) : ((List.range c).map (side n)).sum = min (c * tile) n := by
  induction c with
  | zero => simp
  | succ c ih =>
    simp only [List.range_succ, List.map_append, List.sum_append, ih, List.map_cons, List.map_nil,
      List.sum_singleton, side_eq_min, tile]
    omega

theorem sum_side_all (n : Nat) : ((List.range ((n + tile - 1) / tile)).map (side n)).sum = n := by
  rw [sum_side]
  simp only [tile]
  omega

theorem sum_map_affine (f : Nat → Nat) (a b : Nat) (ks : List Nat) :
    (ks.map fun k => a * f k + b).sum = a * (ks.map f).sum + b * ks.length := by
  induction ks with
  | nil => rfl
  | cons k ks ih =>
    simp only [List.map_cons, List.sum_cons, List.length_cons, ih]
    ring

def Rect.cost (r : Rect) : Nat := 4 * (r.w * r.h) + 66

theorem Frame.sum_cost (f : Frame) :
    (f.tiles.map Rect.cost).sum = 4 * (f.width * f.height) + 66 * (f.cols * f.rows) := by
  have hrow (ty : Nat) : (((List.range f.cols).map (f.tileAt ty)).map Rect.cost).sum =
      4 * f.width * side f.height ty + 66 * f.cols := by
    have hcost : Rect.cost ∘ f.tileAt ty = fun tx => 4 * side f.height ty * side f.width tx + 66 := by
      funext tx
      simp only [Function.comp_apply, Rect.cost, Frame.tileAt, side]
      ring
    rw [List.map_map, hcost, sum_map_affine, Frame.cols, sum_side_all, List.length_range]
    ring
  have hall : (f.tiles.map Rect.cost).sum =
      ((List.range f.rows).map fun ty => 4 * f.width * side f.height ty + 66 * f.cols).sum := by
    rw [Frame.tiles, List.map_flatMap, List.flatMap_def, List.sum_flatten, List.map_map]
    congr 1
    exact List.map_congr_left fun ty _ => hrow ty
  rw [hall, sum_map_affine, Frame.rows, sum_side_all, List.length_range]
  ring

theorem Frame.sum_cost_lt (f : Frame) : (f.tiles.map Rect.cost).sum < 2 ^ 32 := by
  rw [f.sum_cost]
  have harea : 4 * (f.width * f.height) ≤ f.stride * f.height := by
    rw [← Nat.mul_assoc]
    exact Nat.mul_le_mul_right _ f.row_fits
  have hpool := f.pool_fits
  have hcols : f.cols * 64 ≤ f.width + 63 := by
    simp only [Frame.cols, tile]
    omega
  have hrows : f.rows * 64 ≤ f.height + 63 := by
    simp only [Frame.rows, tile]
    omega
  by_cases hempty : f.width = 0 ∨ f.height = 0
  · have : f.cols * f.rows = 0 := by
      obtain h | h := hempty
      · simp [Frame.cols, h, tile]
      · simp [Frame.rows, h, tile]
    omega
  · have hprod : f.cols * 64 * (f.rows * 64) ≤ (f.width + 63) * (f.height + 63) :=
      Nat.mul_le_mul hcols hrows
    have hexp : (f.width + 63) * (f.height + 63) =
        f.width * f.height + 63 * (f.width + f.height) + 3969 := by ring
    have hsides : f.width + f.height ≤ f.width * f.height + 1 := by
      obtain ⟨a, ha⟩ := Nat.exists_eq_succ_of_ne_zero (fun h => hempty (.inl h))
      obtain ⟨b, hb⟩ := Nat.exists_eq_succ_of_ne_zero (fun h => hempty (.inr h))
      rw [ha, hb]
      nlinarith [Nat.zero_le (a * b)]
    have htiles : f.cols * 64 * (f.rows * 64) = 4096 * (f.cols * f.rows) := by ring
    omega

variable {f : Frame}

theorem Frame.mem_tiles : r ∈ f.tiles ↔ ∃ ty < f.rows, ∃ tx < f.cols, f.tileAt ty tx = r := by
  simp [Frame.tiles]

theorem Frame.tileAt_inj (h : f.tileAt ty tx = f.tileAt ty' tx') : ty = ty' ∧ tx = tx' := by
  have hx := congrArg Rect.x h
  have hy := congrArg Rect.y h
  simp only [Frame.tileAt, tile] at hx hy
  omega

theorem Frame.nodup_tiles (f : Frame) : f.tiles.Nodup := by
  rw [Frame.tiles, List.nodup_flatMap]
  refine ⟨fun ty _ => List.nodup_range.map fun _ _ h => (Frame.tileAt_inj h).2, ?_⟩
  refine List.nodup_range.imp fun {ty ty'} hne => ?_
  rw [Function.onFun, List.disjoint_left]
  intro r hr hr'
  obtain ⟨tx, -, rfl⟩ := List.mem_map.mp hr
  obtain ⟨tx', -, h⟩ := List.mem_map.mp hr'
  exact hne (Frame.tileAt_inj h).1.symm

structure Frame.Inside (f : Frame) (r : Rect) : Prop where
  w_pos : 1 ≤ r.w
  h_pos : 1 ≤ r.h
  w_le : r.w ≤ tile
  h_le : r.h ≤ tile
  right : r.x + r.w ≤ f.width
  bottom : r.y + r.h ≤ f.height

theorem Frame.inside_of_mem (hr : r ∈ f.tiles) : f.Inside r := by
  obtain ⟨ty, hty, tx, htx, rfl⟩ := Frame.mem_tiles.mp hr
  have hw : (f.tileAt ty tx).w = min tile (f.width - tx * tile) := side_eq_min f.width tx
  have hh : (f.tileAt ty tx).h = min tile (f.height - ty * tile) := side_eq_min f.height ty
  have hx : (f.tileAt ty tx).x = tx * tile := rfl
  have hy : (f.tileAt ty tx).y = ty * tile := rfl
  simp only [Frame.rows, Frame.cols, tile] at hty htx hw hh hx hy
  constructor <;> simp only [hw, hh, hx, hy, tile] <;> omega

def Frame.Covers (f : Frame) (r : Rect) (a : Nat) : Prop :=
  ∃ row < r.h, ∃ i < r.w * 4, a = f.offset r row + i

theorem Frame.covers_unique (hr : r ∈ f.tiles)
    (hr' : r' ∈ f.tiles) (h : f.Covers r a) (h' : f.Covers r' a) : r = r' := by
  have key : ∀ ty tx, f.tileAt ty tx ∈ f.tiles → f.Covers (f.tileAt ty tx) a →
      ty = a / f.stride / 64 ∧ tx = a % f.stride / 256 := by
    rintro ty tx hmem ⟨row, hrow, i, hi, rfl⟩
    have hin := Frame.inside_of_mem hmem
    have hfit := f.row_fits
    have hright := hin.right
    have hw := hin.w_le
    have hh := hin.h_le
    simp only [Frame.offset]
    have hx : (f.tileAt ty tx).x = tx * 64 := rfl
    have hy : (f.tileAt ty tx).y = ty * 64 := rfl
    simp only [tile] at hw hh
    rw [hx] at hright
    rw [hx, hy, Nat.add_assoc, Nat.mul_comm (ty * 64 + row)]
    have hcol : tx * 64 * 4 + i < f.stride := by omega
    rw [Nat.mul_add_div (by omega), Nat.div_eq_of_lt hcol, Nat.mul_add_mod, Nat.mod_eq_of_lt hcol]
    omega
  obtain ⟨ty, hty, tx, htx, rfl⟩ := Frame.mem_tiles.mp hr
  obtain ⟨ty', hty', tx', htx', rfl⟩ := Frame.mem_tiles.mp hr'
  obtain ⟨h1, h2⟩ := key ty tx hr h
  obtain ⟨h1', h2'⟩ := key ty' tx' hr' h'
  rw [h1, h2, h1', h2']

namespace Stream

theorem tileChanged_iff {s : Stream} : s.tileChanged r = true ↔
      s.havePrev = false ∨ ∃ a, s.frame.Covers r a ∧ s.frame.data a ≠ s.prev a := by
  simp only [tileChanged, Bool.or_eq_true, Bool.not_eq_true', List.any_eq_true, List.mem_range,
    bne_iff_ne, Frame.Covers]
  refine or_congr_right ⟨?_, ?_⟩
  · rintro ⟨row, hrow, i, hi, hne⟩
    exact ⟨_, ⟨row, hrow, i, hi, rfl⟩, hne⟩
  · rintro ⟨_, ⟨row, hrow, i, hi, rfl⟩, hne⟩
    exact ⟨row, hrow, i, hi, hne⟩

theorem tileChanged_congr {s s' : Stream} (hframe : s'.frame = s.frame) (hhave : s'.havePrev = s.havePrev)
    (hprev : ∀ a, s.frame.Covers r a → s'.prev a = s.prev a) : s'.tileChanged r = s.tileChanged r := by
  rw [Bool.eq_iff_iff, tileChanged_iff, tileChanged_iff, hframe, hhave]
  refine or_congr_right (exists_congr fun a => and_congr_right fun ha => ?_)
  rw [hprev a ha]

theorem copyRows_apply (data : Nat → UInt8) (off : Nat → Nat) (len a : Nat) (rows : List Nat)
    (prev : Nat → UInt8) :
    rows.foldl (fun prev row => copyRow data (off row) len prev) prev a =
      if ∃ row ∈ rows, off row ≤ a ∧ a < off row + len then data a else prev a := by
  induction rows generalizing prev with
  | nil => simp
  | cons row rows ih =>
    rw [List.foldl_cons, ih]
    by_cases hrest : ∃ row ∈ rows, off row ≤ a ∧ a < off row + len
    · obtain ⟨row', hrow', h⟩ := hrest
      rw [if_pos ⟨row', hrow', h⟩, if_pos ⟨row', List.mem_cons_of_mem _ hrow', h⟩]
    · rw [if_neg hrest, copyRow]
      refine if_congr ?_ rfl rfl
      rw [List.exists_mem_cons_iff, or_iff_left hrest]

theorem rememberTile_prev (s : Stream) (r : Rect) (a : Nat) [Decidable (s.frame.Covers r a)] :
    (s.rememberTile r).prev a = if s.frame.Covers r a then s.frame.data a else s.prev a := by
  rw [rememberTile]
  simp only
  rw [copyRows_apply]
  refine if_congr ?_ rfl rfl
  simp only [List.mem_range, Frame.Covers]
  refine exists_congr fun row => and_congr_right fun _ => ⟨?_, ?_⟩
  · rintro ⟨hle, hlt⟩
    exact ⟨a - s.frame.offset r row, by omega, by omega⟩
  · rintro ⟨i, hi, rfl⟩
    omega

theorem length_rawRow (s : Stream) (r : Rect) (row : Nat) : (s.rawRow r row).length = r.w * 4 := by
  simp [rawRow, List.length_flatMap]

theorem length_rawTile (s : Stream) (r : Rect) : (s.rawTile r).length = 4 * (r.w * r.h) := by
  simp only [rawTile, List.length_flatMap, length_rawRow, List.map_const', List.sum_replicate,
    List.length_range, smul_eq_mul]
  ring

def sends (mem : Memory) (s : Stream) (r : Rect) : Bool :=
  s.tileChanged r && (mem.table && (s.encodeTile (mem.alloc r) r).2.isSome)

def Sized (planar : Bool) (r : Rect) (n : Nat) : Prop :=
  if planar then n ≤ 3 * r.w * r.h + 2 else n = 4 * (r.w * r.h)

theorem sgPlanarEncode_ne_zero {s : Stream} (hr : s.frame.Inside r) (out : List UInt8) :
    (sgPlanarEncode (s.bitmap r) out).2 ≠ 0 := by
  have hw : 1 ≤ (s.bitmap r).w ∧ (s.bitmap r).w ≤ maxSide :=
    ⟨hr.w_pos, Nat.le_trans hr.w_le (by decide)⟩
  have hh : 1 ≤ (s.bitmap r).h ∧ (s.bitmap r).h ≤ maxSide :=
    ⟨hr.h_pos, Nat.le_trans hr.h_le (by decide)⟩
  obtain h | h := sgPlanarEncode_written (s.bitmap r) out hw hh
  · rw [h.1]
    simp
  · rw [h.1]
    simp

theorem isSome_encodeTile {s : Stream} (hr : s.frame.Inside r) (alloc : Bool) :
    (s.encodeTile alloc r).2.isSome = alloc := by
  rw [encodeTile]
  split
  · have hn := sgPlanarEncode_ne_zero hr s.encoded
    cases alloc <;> simp [hn]
  · cases alloc <;> simp

theorem sized_encodeTile {s : Stream} {data : List UInt8}
    (h : (s.encodeTile alloc r).2 = some data) : Sized s.planar r data.length := by
  rw [encodeTile] at h
  rw [Sized]
  split at h
  · next hplanar =>
    simp only at h
    split at h
    · cases h
    · obtain rfl := Option.some.inj h
      have hsize := (sgPlanarEncode_within (s.bitmap r) s.encoded).le_size
      have hraw : rawSize (s.bitmap r).w (s.bitmap r).h = 3 * r.w * r.h + 2 := by
        rw [rawSize]
        change 1 + 3 * r.w * r.h + 1 = _
        omega
      rw [if_pos hplanar, List.length_take]
      omega
  · next hplanar =>
    simp only at h
    split at h
    · obtain rfl := Option.some.inj h
      rw [if_neg hplanar, length_rawTile]
    · cases h

theorem Sized.le_cost {planar : Bool} {r : Rect} {n : Nat} (h : Sized planar r n) :
    n + 64 ≤ r.cost := by
  rw [Sized, Nat.mul_assoc] at h
  rw [Rect.cost]
  split at h <;> omega

end Stream

def BitmapData.load (d : BitmapData) : Nat := d.bitmapLength + 64

theorem BitmapData.rect_ofTile (planar : Bool) (r : Rect) (data : List UInt8) :
    (BitmapData.ofTile planar r data).rect = r := rfl

structure Encoded (mem : Memory) (s : Stream) (done : List Rect) (ds : List BitmapData) : Prop where
  rects : ds.map BitmapData.rect = done.filter (s.sends mem)
  sized : ∀ d ∈ ds, Stream.Sized s.planar d.rect d.bitmapLength

variable {ds : List BitmapData} {mem : Memory}

theorem Encoded.skip {s : Stream}
    (h : Encoded mem s done ds) (hr : s.sends mem r = false) : Encoded mem s (done ++ [r]) ds :=
  ⟨by simp [h.rects, hr], h.sized⟩

theorem Encoded.send {s : Stream} {data : List UInt8} (h : Encoded mem s done ds) (hr : s.sends mem r = true)
    (hdata : Stream.Sized s.planar r data.length) : Encoded mem s (done ++ [r]) (ds ++ [.ofTile s.planar r data]) := by
  refine ⟨by simp [h.rects, hr, BitmapData.rect_ofTile], fun d hd => ?_⟩
  obtain hd | hd := List.mem_append.mp hd
  · exact h.sized d hd
  · obtain rfl := List.mem_singleton.mp hd
    exact hdata

theorem Encoded.total_le {done : List Rect}
    (h : Encoded mem s done ds) : total BitmapData.load ds ≤ (done.map Rect.cost).sum := by
  have hload : total BitmapData.load ds ≤ ((ds.map BitmapData.rect).map Rect.cost).sum := by
    rw [List.map_map]
    exact List.sum_le_sum fun d hd => (h.sized d hd).le_cost
  rw [h.rects] at hload
  exact Nat.le_trans hload ((List.filter_sublist.map _).sum_le_sum fun _ _ => Nat.zero_le _)

structure Behind (s : Stream) (done : List Rect) (s' : Stream) : Prop where
  frame : s'.frame = s.frame
  planar : s'.planar = s.planar
  havePrev : s'.havePrev = s.havePrev
  prev : ∀ a, (∀ r ∈ done, ¬ s.frame.Covers r a) → s'.prev a = s.prev a

structure Progress (env : Surroundings) (limit : Nat) (s : Stream) (done : List Rect)
    (st : Sending) : Prop where
  stream : Behind s done st.stream
  batched : ∃ ds, Encoded env.toMemory s done ds ∧
    Batched BitmapData.load limit ds st.updates st.tiles
  bytes : st.bytes = total BitmapData.load st.tiles

structure Stopped (env : Surroundings) (limit : Nat) (s : Stream) (done : List Rect)
    (st : Sending) : Prop where
  refused : ∃ k, env.accepts k = false
  batched : ∃ ds batch, Encoded env.toMemory s done ds ∧
    Batched BitmapData.load limit ds st.updates batch

def Outcome (env : Surroundings) (limit : Nat) (s : Stream) (done : List Rect) :
    Except Sending Sending → Prop
  | .ok st => Progress env limit s done st
  | .error st => Stopped env limit s done st

variable {env : Surroundings} {s s' : Stream} {limit max : Nat} {done : List Rect} {st : Sending}
  {r : Rect} {data : List UInt8}

theorem Behind.encodeTile (h : Behind s done s') (alloc : Bool) (r : Rect) :
    Behind s done (s'.encodeTile alloc r).1 := by
  rw [Stream.encodeTile]
  split <;> exact ⟨h.frame, h.planar, h.havePrev, h.prev⟩

theorem Behind.skip (h : Behind s done s') (r : Rect) : Behind s (done ++ [r]) s' :=
  ⟨h.frame, h.planar, h.havePrev, fun a ha => h.prev a fun q hq => ha q (List.mem_append_left _ hq)⟩

theorem Behind.rememberTile (h : Behind s done s') (r : Rect) :
    Behind s (done ++ [r]) (s'.rememberTile r) := by
  refine ⟨h.frame, h.planar, h.havePrev, fun a ha => ?_⟩
  classical
  rw [Stream.rememberTile_prev, h.frame, if_neg (ha r (by simp))]
  exact (h.skip r).prev a ha

theorem Behind.tileChanged (h : Behind s done s') (hr : r ∈ s.frame.tiles) (hnew : r ∉ done)
    (hdone : ∀ q ∈ done, q ∈ s.frame.tiles) : s'.tileChanged r = s.tileChanged r := by
  refine Stream.tileChanged_congr h.frame h.havePrev fun a ha => h.prev a fun q hq hcov => ?_
  exact hnew (Frame.covers_unique hr (hdone q hq) ha hcov ▸ hq)

theorem Progress.skip (h : Progress env limit s done st) (hr : s.sends env.toMemory r = false)
    (hs' : Behind s done s') : Progress env limit s (done ++ [r]) { st with stream := s' } := by
  obtain ⟨ds, hds, hb⟩ := h.batched
  exact ⟨hs'.skip r, ⟨ds, hds.skip hr, hb⟩, h.bytes⟩

theorem Progress.bytes_add (h : Progress env limit s done st) (hr : s.sends env.toMemory r = true)
    (hdata : Stream.Sized s.planar r data.length)
    (hsum : ((done ++ [r]).map Rect.cost).sum < 2 ^ 32) :
    (st.bytes + data.length + 64) % 2 ^ 32 =
      total BitmapData.load st.tiles + (BitmapData.ofTile s.planar r data).load := by
  obtain ⟨ds, hds, hb⟩ := h.batched
  have hall := (hds.send hr hdata).total_le
  have hopen := hb.total_le
  have hload : (BitmapData.ofTile s.planar r data).load = data.length + 64 := rfl
  rw [total_append, total_singleton] at hall
  rw [h.bytes, Nat.mod_eq_of_lt (by omega), hload, Nat.add_assoc]

theorem Progress.addTile (h : Behind s done st.stream)
    (hds : ∃ ds, Encoded env.toMemory s (done ++ [r]) ds ∧ Batched BitmapData.load limit ds
      st.updates (st.tiles ++ [.ofTile s.planar r data]))
    (hbytes : (st.bytes + data.length + 64) % 2 ^ 32 =
      total BitmapData.load (st.tiles ++ [.ofTile s.planar r data])) :
    Progress env limit s (done ++ [r]) (st.addTile r data) := by
  refine ⟨h.rememberTile r, ?_, ?_⟩
  · simpa only [Sending.addTile, h.planar] using hds
  · simpa only [Sending.addTile, h.planar] using hbytes

theorem makeRoom_of_room (h : st.tiles = [] ∨ (st.bytes + size + 64) % 2 ^ 32 ≤ max - 1024) :
    st.makeRoom env max size = .ok st := by
  rw [Sending.makeRoom]
  obtain h | h := h
  · simp [h]
  · rw [decide_eq_false (Nat.not_lt.mpr h), Bool.and_false]
    rfl

theorem makeRoom_of_full (hne : st.tiles ≠ []) (h : max - 1024 < (st.bytes + size + 64) % 2 ^ 32) :
    st.makeRoom env max size = if env.accepts st.updates.length then .ok ⟨st.stream, [], 0, st.updates ++ [st.tiles]⟩
      else .error (Sending.lose ⟨st.stream, st.tiles, st.bytes, st.updates ++ [st.tiles]⟩) := by
  rw [Sending.makeRoom, Sending.flushUpdate]
  rw [decide_eq_true h]
  simp [hne, Sending.clear]

theorem Progress.send (h : Progress env (max - 1024) s done st)
    (hr : s.sends env.toMemory r = true) (hdata : Stream.Sized s.planar r data.length)
    (hsum : ((done ++ [r]).map Rect.cost).sum < 2 ^ 32) :
    Outcome env (max - 1024) s (done ++ [r])
      ((st.makeRoom env max data.length).map (Sending.addTile r data)) := by
  obtain ⟨ds, hds, hb⟩ := h.batched
  have hds' := hds.send hr hdata
  have hbytes := h.bytes_add hr hdata hsum
  by_cases hroom : st.tiles = [] ∨ (st.bytes + data.length + 64) % 2 ^ 32 ≤ max - 1024
  · rw [makeRoom_of_room hroom]
    refine Progress.addTile h.stream ⟨_, hds', hb.add ?_⟩ ?_
    · rwa [hbytes] at hroom
    · rw [total_append, total_singleton]
      exact hbytes
  · obtain ⟨hne, hfull⟩ := not_or.mp hroom
    have hnext := hb.next (by rw [← hbytes]; exact Nat.lt_of_not_le hfull)
    rw [makeRoom_of_full hne (Nat.lt_of_not_le hfull)]
    split
    · refine Progress.addTile h.stream ⟨_, hds', hnext⟩ ?_
      have hload : data.length + 64 < 2 ^ 32 := by
        have := hdata.le_cost
        simp only [List.map_append, List.sum_append, List.map_cons, List.map_nil,
          List.sum_singleton] at hsum
        omega
      rw [List.nil_append, total_singleton, Nat.zero_add, Nat.mod_eq_of_lt hload]
      rfl
    · next hrefused =>
      exact ⟨⟨_, Bool.eq_false_iff.mpr hrefused⟩, _, _, hds', hnext⟩

theorem outcome_sendTile (h : Progress env (max - 1024) s done st) (htable : env.table = true)
    (hr : r ∈ s.frame.tiles) (hnew : r ∉ done) (hdone : ∀ q ∈ done, q ∈ s.frame.tiles)
    (hsum : ((done ++ [r]).map Rect.cost).sum < 2 ^ 32) :
    Outcome env (max - 1024) s (done ++ [r]) (st.sendTile env max r) := by
  have hin := Frame.inside_of_mem hr
  have hchanged := h.stream.tileChanged hr hnew hdone
  have hencoded := h.stream.encodeTile (env.alloc r) r
  have hsome : (st.stream.encodeTile (env.alloc r) r).2.isSome =
      (s.encodeTile (env.alloc r) r).2.isSome := by
    rw [Stream.isSome_encodeTile (h.stream.frame ▸ hin), Stream.isSome_encodeTile hin]
  rw [Sending.sendTile, hchanged]
  by_cases hc : s.tileChanged r = true
  · simp only [hc, Bool.not_true, Bool.false_eq_true, if_false]
    cases he : (st.stream.encodeTile (env.alloc r) r).2 with
    | none =>
      refine h.skip ?_ hencoded
      rw [Stream.sends, ← hsome, he]
      simp
    | some data =>
      have hprogress : Progress env (max - 1024) s done
          { st with stream := (st.stream.encodeTile (env.alloc r) r).1 } :=
        ⟨hencoded, h.batched, h.bytes⟩
      refine hprogress.send ?_ (h.stream.planar ▸ Stream.sized_encodeTile he) hsum
      rw [Stream.sends, hc, htable, ← hsome, he]
      rfl
  · rw [Bool.not_eq_true] at hc
    simp only [hc, Bool.not_false, if_true]
    exact h.skip (by rw [Stream.sends, hc, Bool.false_and]) h.stream

theorem outcome_sendTiles (max : Nat) (rest : List Rect) (h : Progress env (max - 1024) s done st)
    (htable : env.table = true) (hsplit : s.frame.tiles = done ++ rest) :
    ∃ part, part <+: s.frame.tiles ∧
      Outcome env (max - 1024) s part (rest.foldlM (Sending.sendTile env max) st) ∧
      ∀ st', rest.foldlM (Sending.sendTile env max) st = .ok st' → part = s.frame.tiles := by
  induction rest generalizing done st with
  | nil =>
    rw [List.append_nil] at hsplit
    exact ⟨done, hsplit ▸ List.prefix_rfl, h, fun _ _ => hsplit.symm⟩
  | cons r rest ih =>
    have hnodup := s.frame.nodup_tiles
    have hsum := s.frame.sum_cost_lt
    have hsplit' : s.frame.tiles = (done ++ [r]) ++ rest := by simpa using hsplit
    have hstep : Outcome env (max - 1024) s (done ++ [r]) (st.sendTile env max r) := by
      rw [hsplit] at hnodup
      rw [hsplit', List.map_append, List.sum_append] at hsum
      refine outcome_sendTile h htable ?_ ?_ ?_ (Nat.lt_of_le_of_lt (Nat.le_add_right _ _) hsum)
      · rw [hsplit]
        exact List.mem_append_right _ List.mem_cons_self
      · exact fun hmem => (List.nodup_append.mp hnodup).2.2 r hmem r List.mem_cons_self rfl
      · intro q hq
        rw [hsplit]
        exact List.mem_append_left _ hq
    rw [List.foldlM_cons]
    cases hr : st.sendTile env max r with
    | error st' =>
      rw [hr] at hstep
      exact ⟨done ++ [r], ⟨rest, hsplit'.symm⟩, hstep, fun _ h => by cases h⟩
    | ok st' =>
      rw [hr] at hstep
      exact ih hstep hsplit'

theorem Progress.start (env : Surroundings) (limit : Nat) (s : Stream) :
    Progress env limit s [] ⟨s, [], 0, []⟩ :=
  ⟨⟨rfl, rfl, rfl, fun _ _ => rfl⟩, ⟨[], ⟨rfl, by simp⟩, .nil⟩, rfl⟩

structure Passed (env : Surroundings) (limit : Nat) (s : Stream) (ds : List BitmapData)
    (updates : List (List BitmapData)) : Prop where
  sized : ∀ d ∈ ds, Stream.Sized s.planar d.rect d.bitmapLength
  part : ds.map BitmapData.rect <+: s.frame.tiles.filter (s.sends env.toMemory)
  within : (∀ d ∈ ds, d.load ≤ limit) → ∀ u ∈ updates, total BitmapData.load u ≤ limit
  flatten : updates.flatten <+: ds
  whole : (∀ k, env.accepts k = true) → updates.flatten = ds ∧
    ds.map BitmapData.rect = s.frame.tiles.filter (s.sends env.toMemory)

theorem Stopped.passed (h : Stopped env limit s part st)
    (hpart : part <+: s.frame.tiles) : ∃ ds, Passed env limit s ds st.updates := by
  obtain ⟨k, hk⟩ := h.refused
  obtain ⟨ds, batch, hds, hb⟩ := h.batched
  refine ⟨ds, hds.sized, hds.rects ▸ hpart.filter _, ?_, ⟨batch, hb.flatten⟩, ?_⟩
  · exact fun hsmall u hu => hb.within hsmall u (List.mem_append_left _ hu)
  · exact fun hall => absurd (hall k) (by simp [hk])

theorem Progress.finish (h : Progress env limit s s.frame.tiles st) :
    ∃ ds, Passed env limit s ds (st.finish env).updates := by
  obtain ⟨ds, hds, hb⟩ := h.batched
  have hupdates : (st.finish env).updates =
      if st.tiles = [] then st.updates else st.updates ++ [st.tiles] := by
    rw [Sending.finish, Sending.flushUpdate]
    by_cases hempty : st.tiles = []
    · simp [hempty]
    · simp only [List.isEmpty_iff, hempty, if_false]
      split <;> rfl
  have hflat : (st.finish env).updates.flatten = ds := by
    rw [← hb.flatten, hupdates]
    split
    · next hempty => rw [hempty, List.append_nil]
    · rw [List.flatten_append, List.flatten_singleton]
  have hmem : ∀ u ∈ (st.finish env).updates, u ∈ st.updates ++ [st.tiles] := by
    intro u hu
    rw [hupdates] at hu
    split at hu
    · exact List.mem_append_left _ hu
    · exact hu
  exact ⟨ds, hds.sized, hds.rects ▸ List.prefix_rfl,
    fun hsmall u hu => hb.within hsmall u (hmem u hu), hflat ▸ List.prefix_rfl,
    fun _ => ⟨hflat, hds.rects⟩⟩

theorem sendFrame_passed (env : Surroundings) (announced : Nat) (s : Stream) :
    ∃ ds, Passed env (requestSize announced - 1024) s ds (sendFrame env announced s).2 := by
  rw [sendFrame]
  cases htable : env.table with
  | false =>
    have hnone : s.frame.tiles.filter (s.sends env.toMemory) = [] := by
      simp [Stream.sends, htable]
    exact ⟨[], by simp, by simp, by simp, by simp, by simp [hnone]⟩
  | true =>
    obtain ⟨part, hpart, hout, hwhole⟩ := outcome_sendTiles (requestSize announced)
      s.frame.tiles (Progress.start env _ s) htable rfl
    simp only [Bool.not_true, Bool.false_eq_true, if_false]
    cases hloop : s.frame.tiles.foldlM (Sending.sendTile env (requestSize announced))
        ⟨s, [], 0, []⟩ with
    | error st =>
      rw [hloop] at hout
      exact Stopped.passed hout hpart
    | ok st =>
      rw [hloop] at hout
      obtain rfl := hwhole st hloop
      exact Progress.finish hout

/-- None too large for the client, each tile to be sent in one, in the order of the rows. -/
structure Batches (env : Surroundings) (announced : Nat) (s : Stream) : Prop where
  within : ∀ u ∈ (sendFrame env announced s).2,
    (u.map fun d => d.bitmapLength + 64).sum ≤ requestSize announced - 1024
  once : ((sendFrame env announced s).2.flatten.map BitmapData.rect).Nodup
  ordered : (sendFrame env announced s).2.flatten.map BitmapData.rect <+:
    s.frame.tiles.filter (s.sends env.toMemory)
  all : (∀ k, env.accepts k = true) → (sendFrame env announced s).2.flatten.map BitmapData.rect =
    s.frame.tiles.filter (s.sends env.toMemory)

def RawTilesFit (mem : Memory) (announced : Nat) (s : Stream) : Prop :=
  s.planar = true ∨ ∀ r ∈ s.frame.tiles, s.sends mem r = true →
    4 * (r.w * r.h) + 64 ≤ requestSize announced - 1024

theorem le_requestSize (announced : Nat) : 16384 ≤ requestSize announced := by
  rw [requestSize]
  split <;> omega

theorem RawTilesFit.load_le (h : RawTilesFit mem announced s)
    {d : BitmapData} (hd : Stream.Sized s.planar d.rect d.bitmapLength) (hr : d.rect ∈ s.frame.tiles)
    (hsends : s.sends mem d.rect = true) : d.load ≤ requestSize announced - 1024 := by
  have hin := Frame.inside_of_mem hr
  have hmax := le_requestSize announced
  rw [BitmapData.load]
  by_cases hplanar : s.planar = true
  · rw [Stream.Sized, if_pos hplanar] at hd
    have harea : 3 * d.rect.w * d.rect.h ≤ 3 * tile * tile := by
      gcongr
      · exact hin.w_le
      · exact hin.h_le
    simp only [tile] at harea
    omega
  · rw [Stream.Sized, if_neg hplanar] at hd
    rw [hd]
    exact (h.resolve_left hplanar) d.rect hr hsends

theorem batches_iff_rawTilesFit (mem : Memory) (announced : Nat) (s : Stream) :
    (∀ accepts, Batches ⟨mem, accepts⟩ announced s) ↔ RawTilesFit mem announced s := by
  constructor
  · intro h
    refine or_iff_not_imp_left.mpr fun hplanar r hr hsends => ?_
    have hb := h fun _ => true
    obtain ⟨ds, hds⟩ := sendFrame_passed ⟨mem, fun _ => true⟩ announced s
    obtain ⟨hflat, hrects⟩ := hds.whole fun _ => rfl
    have hmem : r ∈ ds.map BitmapData.rect := by
      rw [hrects]
      exact List.mem_filter.mpr ⟨hr, hsends⟩
    obtain ⟨d, hd, rfl⟩ := List.mem_map.mp hmem
    have hsized := hds.sized d hd
    rw [Stream.Sized, if_neg hplanar] at hsized
    rw [← hflat] at hd
    obtain ⟨u, hu, hdu⟩ := List.mem_flatten.mp hd
    have hload := size_le_total BitmapData.load hdu
    have := Nat.le_trans hload (hb.within u hu)
    rwa [BitmapData.load, hsized] at this
  · intro h accepts
    obtain ⟨ds, hds⟩ := sendFrame_passed ⟨mem, accepts⟩ announced s
    have hstart := hds.flatten.map BitmapData.rect
    refine ⟨hds.within fun d hd => ?_, ?_, hstart.trans hds.part, fun hall => ?_⟩
    · have hmem := hds.part.subset (List.mem_map_of_mem hd)
      obtain ⟨hr, hsends⟩ := List.mem_filter.mp hmem
      exact h.load_le (hds.sized d hd) hr hsends
    · exact ((s.frame.nodup_tiles.filter _).sublist (hstart.trans hds.part).sublist)
    · rw [(hds.whole hall).1]
      exact (hds.whole hall).2

def oneTile : Stream where
  frame := ⟨64, 64, 256, fun _ => 0, by decide, by decide⟩
  prev := fun _ => 0
  havePrev := false
  planar := false
  encoded := []
  gone := false

theorem oneTile_is_too_large :
    ∃ u ∈ (sendFrame ⟨⟨true, fun _ => true⟩, fun _ => true⟩ 16384 oneTile).2,
      requestSize 16384 - 1024 < (u.map fun d => d.bitmapLength + 64).sum := by
  obtain ⟨ds, hds⟩ := sendFrame_passed ⟨⟨true, fun _ => true⟩, fun _ => true⟩ 16384 oneTile
  obtain ⟨hflat, hrects⟩ := hds.whole fun _ => rfl
  have hr : (⟨0, 0, 64, 64⟩ : Rect) ∈ oneTile.frame.tiles := by decide
  have hsends : oneTile.sends ⟨true, fun _ => true⟩ ⟨0, 0, 64, 64⟩ = true := by
    rw [Stream.sends, Stream.isSome_encodeTile (Frame.inside_of_mem hr)]
    rfl
  have hmem : (⟨0, 0, 64, 64⟩ : Rect) ∈ ds.map BitmapData.rect := by
    rw [hrects]
    exact List.mem_filter.mpr ⟨hr, hsends⟩
  obtain ⟨d, hd, hrect⟩ := List.mem_map.mp hmem
  have hsized := hds.sized d hd
  rw [hrect] at hsized
  have hlength : d.bitmapLength = 16384 := hsized
  rw [← hflat] at hd
  obtain ⟨u, hu, hdu⟩ := List.mem_flatten.mp hd
  have hload := size_le_total BitmapData.load hdu
  rw [BitmapData.load, hlength] at hload
  exact ⟨u, hu, Nat.lt_of_lt_of_le (by decide) hload⟩

end StainedGlass.Rdp
