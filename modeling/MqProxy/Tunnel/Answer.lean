import MqProxy.Server.Segmentation
import MqProxy.Tunnel.State

/-!
# The response to a CONNECT, and what follows it

A stream brings the response and then what the target sends; `open_readable` reads the response and
hands what it has read beyond it to the relay.
-/

namespace MqProxy.Tunnel

open MqProxy.Wire MqProxy.Server

/-- **No byte behind the response is lost**, however the reads cut the stream: a call of the loop waits
with a part of the frame and has come closer to its end, or it ends with the response, and what it
has read beyond the frame and what is still to be read are the data. -/
theorem response_handed_over {frame rx data : List UInt8} {resp : ConnectTcpResp} {inc : Incoming}
    (hframe : ConnectTcpResp.decode frame = .ok (resp, frame.length)) (hbound : frame.length ≤ MAX_FRAME)
    (hclean : Clean false inc) (hrx : rx.length < frame.length) (hbytes : rx ++ payload inc = frame ++ data) :
    ∃ r inc', readConnectResp rx inc = (r, inc') ∧ weight inc' < weight inc ∧
      ((∃ rx', r = .wait rx' ∧ rx'.length < frame.length ∧ Clean false inc' ∧ rx' ++ payload inc' = frame ++ data) ∨
      ∃ rx' fin, r = .decided rx' fin ∧ ConnectTcpResp.decode rx' = .ok (resp, frame.length) ∧
        rx'.drop frame.length ++ payload inc' = data) := by
  rw [readConnectResp]
  rcases recv_consumes CHUNK hclean with ⟨inc', hrecv, hconsumes, hw⟩ | ⟨bytes, last, inc', hrecv, -, hconsumes, hw⟩
  · have hrest : rx ++ payload inc' = frame ++ data := by rw [← hbytes, hconsumes.payload]; rfl
    rw [hrecv]
    refine ⟨_, inc', rfl, hw.resolve_right ?_, .inl ⟨rx, rfl, hrx, hconsumes.clean, hrest⟩⟩
    rintro rfl
    have hlength := congrArg List.length hrest
    simp only [payload, List.length_append, List.length_nil] at hlength
    omega
  · have hless : weight inc' < weight inc := hw.resolve_right fun h => Nat.succ_ne_zero _ h.1
    have hrest : rx ++ bytes ++ payload inc' = frame ++ data := by
      rw [List.append_assoc, ← hconsumes.payload, hbytes]
    rw [hrecv]
    simp only
    have hprefix : rx ++ bytes <+: frame ++ data := hrest ▸ List.prefix_append ..
    rcases Nat.lt_or_ge (rx ++ bytes).length frame.length with hlt | hge
    · -- a part of the frame: there is more to come, so this was not the end
      have hlast : last = false := by
        by_contra hlast
        have hover := hconsumes.clean
        rw [Bool.eq_true_of_not_eq_false hlast] at hover
        have hlength := congrArg List.length hrest
        rw [payload_of_clean_true hover, List.append_nil, @List.length_append _ frame] at hlength
        omega
      subst hlast
      have hpart := List.prefix_of_prefix_length_le hprefix (List.prefix_append ..) hlt.le
      have hshort := ConnectTcpResp.decode_coherent.strict_prefix hframe (by rwa [List.take_length]) hlt
      rw [if_pos ⟨hshort, rfl, hlt.trans_le hbound⟩]
      split
      · exact ⟨_, inc', rfl, hless, .inl ⟨_, rfl, hlt, hconsumes.clean, hrest⟩⟩
      · obtain ⟨r, inc'', hread, hless', hcases⟩ := response_handed_over hframe hbound hconsumes.clean hlt hrest
        exact ⟨r, inc'', hread, hless'.trans hless, hcases⟩
    · obtain ⟨more, hmore⟩ := List.prefix_of_prefix_length_le (List.prefix_append ..) hprefix hge
      have hok := ConnectTcpResp.decode_coherent.ok_append hframe more
      rw [← hmore, List.append_assoc] at hrest
      rw [hmore] at hok
      rw [if_neg (by rw [hok]; simp)]
      refine ⟨_, inc', rfl, hless, .inr ⟨_, last, rfl, hok, ?_⟩⟩
      rw [← hmore, List.drop_left]
      exact List.append_cancel_left hrest
termination_by weight inc

/-- A response in two reads, the second with a byte of the data. -/
def inTwo : Incoming := [.data [0, 0] false, .data [0, 0, 7] false, .data [8] true]

theorem response_handed_over_inTwo :
    ∃ r inc', readConnectResp [] inTwo = (r, inc') ∧ weight inc' < weight inTwo := by
  have hbytes : [] ++ payload inTwo = [0, 0, 0, 0] ++ [7, 8] := rfl
  have hframe : ConnectTcpResp.decode [0, 0, 0, 0] = .ok (⟨STATUS_OK, 0, []⟩, 4) := by decide
  obtain ⟨r, inc', hread, hless, -⟩ :=
    response_handed_over hframe (by decide) (by simp [inTwo, Clean]) (by decide) hbytes
  exact ⟨r, inc', hread, hless⟩

end MqProxy.Tunnel
