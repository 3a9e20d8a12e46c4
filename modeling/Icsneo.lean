import Icsneo.Communication
import Icsneo.PlasionRequest
import Icsneo.PlasionTransaction
import Icsneo.PlasionRead
import Icsneo.CDCACMFind
import Icsneo.CDCACMParse
import Icsneo.CDCACMDiscovery
import Icsneo.PlasionTeardown
import Icsneo.PlasionSchedule
import Icsneo.CANPacket
import Icsneo.PlasionFrame
