import DpdkFolder.Support.Custody

/-!
# Custody of mbufs at the ethdev calls

The calls that move mbufs between the application and the driver, as events
of custody.  A burst that is offered for transmission is touched as a whole;
the driver then owns the mbufs it accepts, a prefix of the burst.
-/

namespace DpdkFolder

variable {μ : Type*}

/-- `rte_eth_rx_burst` hands over the received mbufs. -/
def rteEthRxBurst (rxPkts : List μ) : List (CustodyEvent μ) :=
  rxPkts.map .acquire

/-- `rte_eth_tx_burst` on `txPkts`, of which the driver accepts `nbTx`. -/
def rteEthTxBurst (txPkts : List μ) (nbTx : ℕ) : List (CustodyEvent μ) :=
  txPkts.map .touch ++ (txPkts.take nbTx).map .release

/-- `rte_pktmbuf_free`, on an mbuf with a reference count of 1. -/
def rtePktmbufFree (m : μ) : List (CustodyEvent μ) := [.release m]

end DpdkFolder
